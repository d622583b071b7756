import Squirt.RegisterOperands

/-!
# Executing the instructions of expressions

`SQVM::Execute` on the registers of one function, for the instructions that expressions are compiled
to. What an instruction does with the values of its operands is a parameter: it may read and change
everything but the temporaries, since other functions reach the local variables through outers.
-/

namespace Squirt.SQCompiler

inductive UnaryOperator
  | neg | not | bwnot | typeof | resume | clone
  deriving DecidableEq

/-- The operators of `BIN_EXP`, `bitw` and `cmp` with their `op3` -/
inductive BinaryOperator
  | add | sub | mul | div | mod | bitw (op3 : BitVec 8) | cmp (op3 : BitVec 8) | eq | ne | in_
  | instanceof | as_
  deriving DecidableEq

/-- What is done with the values of operands. `this` is for `selfidx` 0, and an increment is by an
operand, after the value is taken for `post`. -/
inductive Operation
  | loadRoot | getBase | closure (f : ℕ) | getOuter (pos : ℕ) | setOuter (pos : ℕ)
  | get (this : Bool) | set (this : Bool) | newSlot | delete
  | unary (op : UnaryOperator) | binary (op : BinaryOperator)
  | derefInc (op : BitVec 8) (post this : Bool) | inc
  | newArray | append | call
  deriving DecidableEq

/-- The registers of the variables, and everything outside of the registers -/
abbrev World (V G : Type) := (ℕ → V) × G

/-- What `Execute` rests on: constants, and what operations do. An operation that fails raises an
error, and what it has changed until then stays so. The target is stored when the operation has
succeeded: a metamethod that is a class, with an instance in the target before its constructor is
called, is not meant. -/
structure Operations (V E G : Type) where
  literal : ℕ → V
  integer : ℤ → V
  float : ℤ → V
  bool : Bool → V
  null : V
  isFalse : V → Bool
  apply : Operation → List V → World V G → Except (E × World V G) (V × World V G)
  /-- what a call leaves in the registers from its arguments on -/
  left : World V G → ℕ → V

/-- The stack from `_stackbase` on: the variables, and the temporaries. -/
structure Registers (V G : Type) where
  world : World V G
  temps : ℕ → V

inductive Operand
  | reg (r : ℕ)
  | literal (k : ℕ)
  | integer (n : ℤ)
  | float (bits : ℤ)
  | bool (b : Bool)

/-- What is stored in the target -/
inductive Computation
  | copy (x : Operand)
  | apply (op : Operation) (xs : List Operand)

namespace SQInstruction

variable (i : SQInstruction)

def condLiteral : Operand := if i.arg3 ≠ 0 then .literal i.arg1.toNat else .reg i.arg1.toNat

/-- `STK(arg2)` and `STK(arg1)` with an operator -/
def binary (op : BinaryOperator) : Computation :=
  .apply (.binary op) [.reg i.arg2.toNat, .reg i.arg1.toNat]

/-- `STK(arg1)` with an operator -/
def unary (op : UnaryOperator) : Computation := .apply (.unary op) [.reg i.arg1.toNat]

/-- The `val` of `_OP_APPENDARRAY` -/
def appended : Operand :=
  if i.arg2 = 1 then .literal i.arg1.toNat
  else if i.arg2 = 2 then .integer i.arg1
  else if i.arg2 = 3 then .float i.arg1
  else if i.arg2 = 4 then .bool (i.arg1 ≠ 0)
  else .reg i.arg1.toNat

/-- The instructions that compute what they store in `TARGET`, and raise an error if they fail -/
def computation : Option Computation :=
  match i.op with
  | .LOAD => some (.copy (.literal i.arg1.toNat))
  | .LOADINT => some (.copy (.integer i.arg1))
  | .LOADFLOAT => some (.copy (.float i.arg1))
  | .LOADBOOL => some (.copy (.bool (i.arg1 ≠ 0)))
  | .MOVE => some (.copy (.reg i.arg1.toNat))
  | .LOADROOT => some (.apply .loadRoot [])
  | .GETBASE => some (.apply .getBase [])
  | .CLOSURE => some (.apply (.closure i.arg1.toNat) [])
  | .GETOUTER => some (.apply (.getOuter i.arg1.toNat) [])
  | .GET => some (.apply (.get (i.arg1 = 0)) [.reg i.arg1.toNat, .reg i.arg2.toNat])
  | .GETK => some (.apply (.get (i.arg2 = 0)) [.reg i.arg2.toNat, .literal i.arg1.toNat])
  | .DELETE => some (.apply .delete [.reg i.arg1.toNat, .reg i.arg2.toNat])
  | .EQ => some (.apply (.binary .eq) [.reg i.arg2.toNat, i.condLiteral])
  | .NE => some (.apply (.binary .ne) [.reg i.arg2.toNat, i.condLiteral])
  | .ADD => some (i.binary .add)
  | .SUB => some (i.binary .sub)
  | .MUL => some (i.binary .mul)
  | .DIV => some (i.binary .div)
  | .BITW => some (i.binary (.bitw i.arg3))
  | .CMP => some (i.binary (.cmp i.arg3))
  | .EXISTS => some (i.binary .in_)
  | .INSTANCEOF => some (i.binary .instanceof)
  | .DYNAMICCAST => some (i.binary .as_)
  | .NEG => some (i.unary .neg)
  | .NOT => some (i.unary .not)
  | .BWNOT => some (i.unary .bwnot)
  | .TYPEOF => some (i.unary .typeof)
  | .RESUME => some (i.unary .resume)
  | .CLONE => some (i.unary .clone)
  -- `Reserve` of an array only sets its capacity
  | .NEWOBJ => if i.arg3 = 1 then some (.apply .newArray []) else none
  | .COMPARITH =>
    let selfidx := compArithSource i.arg1
    some (.apply (.derefInc i.arg3 false (selfidx = 0))
      [.reg selfidx, .reg i.arg2.toNat, .reg (compArithValue i.arg1)])
  | .INC => some (.apply (.derefInc 43 false (i.arg1 = 0))
      [.reg i.arg1.toNat, .reg i.arg2.toNat, .integer i.arg3.toInt])
  | .PINC => some (.apply (.derefInc 43 true (i.arg1 = 0))
      [.reg i.arg1.toNat, .reg i.arg2.toNat, .integer i.arg3.toInt])
  | _ => none

end SQInstruction

section Execution

variable {V E G : Type} (ops : Operations V E G) (nlocals : ℕ)

namespace Registers

variable (m : Registers V G)

/-- `STK(r)`: the registers below `nlocals` are those of variables. -/
def reg (r : ℕ) : V := if r < nlocals then m.world.1 r else m.temps r

/-- `STK(r) = v` -/
def setReg (r : ℕ) (v : V) : Registers V G :=
  if r < nlocals then { m with world := (Function.update m.world.1 r v, m.world.2) }
  else { m with temps := Function.update m.temps r v }

/-- What a call leaves: the registers from `stackbase` on are not those of before. -/
def afterCall (stackbase : ℕ) (world : World V G) : Registers V G where
  world := world
  temps r := if stackbase ≤ r then ops.left world r else m.temps r

end Registers

def Operand.value (m : Registers V G) : Operand → V
  | reg r => m.reg nlocals r
  | literal k => ops.literal k
  | integer n => ops.integer n
  | float bits => ops.float bits
  | bool b => ops.bool b

/-- The value that is computed, and the registers then -/
def Computation.run (m : Registers V G) :
    Computation → Except (E × World V G) (V × Registers V G)
  | copy x => .ok (x.value ops nlocals m, m)
  | apply op xs => do
    let (v, world) ← ops.apply op (xs.map (·.value ops nlocals m)) m.world
    return (v, { m with world })

/-- `Execute` of one instruction, with the distance that it jumps; none for an instruction that is
not one of an expression. The target of a call is read as a signed number in `StartCall`, so
that no register from 128 on can be one. -/
def execute (i : SQInstruction) (m : Registers V G) :
    Option (Except (E × World V G) (ℤ × Registers V G)) :=
  match i.computation with
  | some c => some do
    let (v, m) ← c.run ops nlocals m
    return (0, m.setReg nlocals i.arg0.toNat v)
  | none =>
    let reg := fun m : Registers V G => m.reg nlocals
    let setReg := fun (m : Registers V G) (r : BitVec 8) => m.setReg nlocals r.toNat
    match i.op with
    | .MOD =>
      -- without `_GUARD`: after an error it goes on with `TARGET` as it was
      match (i.binary .mod).run ops nlocals m with
      | .ok (v, m) => some (.ok (0, setReg m i.arg0 v))
      | .error (_, world) => some (.ok (0, { m with world }))
    | .LOADNULLS => some (.ok (0, (List.range i.arg1.toNat).foldl
        (fun m n => m.setReg nlocals (i.arg0.toNat + n) ops.null) m))
    | .DLOAD =>
      let m := setReg m i.arg0 (ops.literal i.arg1.toNat)
      some (.ok (0, setReg m i.arg2 (ops.literal i.arg3.toNat)))
    | .DMOVE =>
      let m := setReg m i.arg0 (reg m i.arg1.toNat)
      some (.ok (0, setReg m i.arg2 (reg m i.arg3.toNat)))
    | .PREPCALL | .PREPCALLK => some do
      let key := if i.op = .PREPCALLK then .literal i.arg1.toNat else .reg i.arg1.toNat
      let (temp_reg, m) ← Computation.run ops nlocals m
        (.apply (.get (i.arg2 = 0)) [.reg i.arg2.toNat, key])
      let m := setReg m i.arg3 (reg m i.arg2.toNat)
      return (0, setReg m i.arg0 temp_reg)
    | .SET => some do
      let (_, m) ← Computation.run ops nlocals m (.apply (.set (i.arg1 = 0))
        [.reg i.arg1.toNat, .reg i.arg2.toNat, .reg i.arg3.toNat])
      return (0, if i.arg0 ≠ 0xFF then setReg m i.arg0 (reg m i.arg3.toNat) else m)
    | .NEWSLOT => some do
      let (_, m) ← Computation.run ops nlocals m (.apply .newSlot
        [.reg i.arg1.toNat, .reg i.arg2.toNat, .reg i.arg3.toNat])
      return (0, if i.arg0 ≠ 0xFF then setReg m i.arg0 (reg m i.arg3.toNat) else m)
    | .SETOUTER => some do
      let (_, m) ← Computation.run ops nlocals m
        (.apply (.setOuter i.arg1.toNat) [.reg i.arg2.toNat])
      return (0, if i.arg0 ≠ 0xFF then setReg m i.arg0 (reg m i.arg2.toNat) else m)
    | .APPENDARRAY => some do
      let (_, m) ← Computation.run ops nlocals m (.apply .append [.reg i.arg0.toNat, i.appended])
      return (0, m)
    | .INCL => some do
      let (v, m) ← Computation.run ops nlocals m
        (.apply .inc [.reg i.arg1.toNat, .integer i.arg3.toInt])
      return (0, m.setReg nlocals i.arg1.toNat v)
    | .PINCL => some do
      let (v, m) ← Computation.run ops nlocals m
        (.apply .inc [.reg i.arg1.toNat, .integer i.arg3.toInt])
      let m := setReg m i.arg0 (reg m i.arg1.toNat)
      return (0, m.setReg nlocals i.arg1.toNat v)
    | .CALL =>
      if i.arg0.toNat < 128 ∨ i.arg0 = 0xFF then some do
        let args := (List.range i.arg3.toNat).map fun n => reg m (i.arg2.toNat + n)
        let (v, world) ← ops.apply .call (reg m i.arg1.toNat :: args) m.world
        let m := m.afterCall ops i.arg2.toNat world
        return (0, if i.arg0 ≠ 0xFF then setReg m i.arg0 v else m)
      else none
    | .JMP => some (.ok (i.arg1, m))
    | .JZ => some (.ok (if ops.isFalse (reg m i.arg0.toNat) then i.arg1 else 0, m))
    | .JCMP => some do
      let (temp_reg, m) ← Computation.run ops nlocals m
        (.apply (.binary (.cmp i.arg3)) [.reg i.arg2.toNat, .reg i.arg0.toNat])
      return (if ops.isFalse temp_reg then i.arg1 else 0, m)
    | .AND =>
      let v := reg m i.arg2.toNat
      if ops.isFalse v then some (.ok (i.arg1, setReg m i.arg0 v)) else some (.ok (0, m))
    | .OR =>
      let v := reg m i.arg2.toNat
      if ops.isFalse v then some (.ok (0, m)) else some (.ok (i.arg1, setReg m i.arg0 v))
    | _ => none

end Execution

end Squirt.SQCompiler
