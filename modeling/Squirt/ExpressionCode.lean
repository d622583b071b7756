import Squirt.RegisterMachine
import Squirt.StatementCode

/-!
# The code of expressions

The expression functions of `SQCompiler`, from the syntax tree of an expression on, with the
instructions that they add and the targets that they push and pop. Not among them are table and
class literals, default parameters of functions and a compound assignment to an outer variable,
which leaves a target too many.
-/

namespace Squirt.SQCompiler

/-- What needs no other expression -/
inductive Leaf
  | literal (k : ℕ)
  | integer (n : ℤ)
  | float (bits : ℤ)
  | bool (b : Bool)
  | null | root | base
  | function (f : ℕ)
  | outer (pos : ℕ)

inductive ArithOperator
  | add | sub | mul | div | mod
  deriving DecidableEq

mutual

/-- A variable is given by its register or its index in `_outervalues`, a string by its index among
the literals. A field of `this` is a member of the variable 0, and the two branches of an expression
in parentheses with a comma are evaluated in turn. -/
inductive Expression
  | leaf (l : Leaf)
  | var (pos : ℕ)
  | member (o k : Expression)
  | unary (op : UnaryOperator) (e : Expression)
  | binary (op : BinaryOperator) (a b : Expression)
  | and (a b : Expression)
  | or (a b : Expression)
  | conditional (c a b : Expression)
  | comma (a b : Expression)
  | assign (pos : ℕ) (e : Expression)
  | assignOuter (pos : ℕ) (e : Expression)
  | assignMember (o k e : Expression)
  | newSlot (o k e : Expression)
  | compound (op : ArithOperator) (pos : ℕ) (e : Expression)
  | compoundMember (op : ArithOperator) (o k e : Expression)
  /-- `++` and `--` before a variable, and `post` behind it -/
  | inc (minus post : Bool) (pos : ℕ)
  | incOuter (minus post : Bool) (pos : ℕ)
  | incMember (minus post : Bool) (o k : Expression)
  | delete (o k : Expression)
  | array (elements : Expressions)
  | call (f : Expression) (args : Expressions)
  | callMember (o k : Expression) (args : Expressions)

inductive Expressions
  | nil
  | cons (e : Expression) (es : Expressions)

end

def Expressions.length : Expressions → ℕ
  | nil => 0
  | cons _ es => es.length + 1

def UnaryOperator.opcode : UnaryOperator → SQOpcode
  | neg => .NEG
  | not => .NOT
  | bwnot => .BWNOT
  | typeof => .TYPEOF
  | resume => .RESUME
  | clone => .CLONE

def BinaryOperator.opcode : BinaryOperator → SQOpcode
  | add => .ADD
  | sub => .SUB
  | mul => .MUL
  | div => .DIV
  | mod => .MOD
  | bitw _ => .BITW
  | cmp _ => .CMP
  | eq => .EQ
  | ne => .NE
  | in_ => .EXISTS
  | instanceof => .INSTANCEOF
  | as_ => .DYNAMICCAST

def BinaryOperator.op3 : BinaryOperator → ℤ
  | bitw op3 => op3.toNat
  | cmp op3 => op3.toNat
  | _ => 0

namespace ArithOperator

/-- `ChooseArithOpByToken` -/
def operator : ArithOperator → BinaryOperator
  | add => .add
  | sub => .sub
  | mul => .mul
  | div => .div
  | mod => .mod

/-- `ChooseCompArithCharByToken` -/
def char : ArithOperator → BitVec 8
  | add => 43
  | sub => 45
  | mul => 42
  | div => 47
  | mod => 37

end ArithOperator

/-- The `diff` of `++` and `--` -/
def incDiff (minus : Bool) : ℤ := if minus then -1 else 1

section Emission

variable (source : ℕ)

namespace SQFuncState

variable (fs : SQFuncState)

/-- `AddInstruction(_op, a0, a1, a2, a3)` -/
def emit (op : SQOpcode) (a0 a1 a2 a3 : ℤ) : SQFuncState :=
  fs.addInstruction (.ofArgs (some source) op a0 a1 a2 a3)

/-- `AddInstruction(_op, PushTarget(), a1, a2, a3)` -/
def emitPush (op : SQOpcode) (a1 a2 a3 : ℤ) : SQFuncState :=
  let fs := fs.pushTarget none
  fs.emit source op fs.topTarget a1 a2 a3

def emit2ArgsOP (op : SQOpcode) (p3 : ℤ) : SQFuncState :=
  let p2 := fs.topTarget
  let fs := fs.popTarget
  let p1 := fs.topTarget
  let fs := fs.popTarget
  fs.emitPush source op p1 p2 p3

def emitDerefOp (op : SQOpcode) : SQFuncState :=
  let val := fs.topTarget
  let fs := fs.popTarget
  let key := fs.topTarget
  let fs := fs.popTarget
  let src := fs.topTarget
  let fs := fs.popTarget
  fs.emitPush source op src key val

def moveIfCurrentTargetIsLocal : SQFuncState :=
  let trg := fs.topTarget
  if fs.isLocal trg then fs.popTarget.emitPush source .MOVE trg 0 0 else fs

/-- The end of `BIN_EXP` -/
def binExp (op : SQOpcode) (op3 : ℤ) : SQFuncState :=
  let op1 := fs.topTarget
  let fs := fs.popTarget
  let op2 := fs.topTarget
  let fs := fs.popTarget
  fs.emitPush source op op1 op2 op3

/-- The end of `UnaryOP` -/
def unaryOP (op : SQOpcode) : SQFuncState :=
  let src := fs.topTarget
  fs.popTarget.emitPush source op src 0 0

/-- `PopTarget`, `n` times -/
def popTargets : ℕ → SQFuncState → SQFuncState
  | 0, fs => fs
  | n + 1, fs => popTargets n fs.popTarget

/-- The end of `FunctionCallArgs`, after so many arguments without `this` -/
def endCall (nargs : ℕ) : SQFuncState :=
  let fs := fs.popTargets nargs
  let stackbase := fs.topTarget
  let fs := fs.popTarget
  let closure := fs.topTarget
  let fs := fs.popTarget
  fs.emitPush source .CALL closure stackbase (nargs + 1)

end SQFuncState

def Leaf.compile (fs : SQFuncState) : Leaf → SQFuncState
  | literal k => fs.emitPush source .LOAD k 0 0
  | integer n => fs.emitPush source .LOADINT n 0 0
  | float bits => fs.emitPush source .LOADFLOAT bits 0 0
  | bool b => fs.emitPush source .LOADBOOL (if b then 1 else 0) 0 0
  | null => fs.emitPush source .LOADNULLS 1 0 0
  | root => fs.emitPush source .LOADROOT 0 0 0
  | base => fs.emitPush source .GETBASE 0 0 0
  | function f => fs.emitPush source .CLOSURE f 0 0
  | outer pos => fs.emitPush source .GETOUTER pos 0 0

/-- `PrefixedExpr` at a `++` or `--`, and `PrefixIncDec`, of a local variable -/
def compileInc (minus post : Bool) (pos : ℕ) (fs : SQFuncState) : SQFuncState :=
  let fs := fs.pushTarget (some pos)
  if post then
    let src := fs.topTarget
    fs.popTarget.emitPush source .PINCL src 0 (incDiff minus)
  else
    let src := fs.topTarget
    fs.emit source .INCL src src 0 (incDiff minus)

/-- The same of an outer variable -/
def compileIncOuter (minus post : Bool) (pos : ℕ) (fs : SQFuncState) : SQFuncState :=
  if post then
    let fs := fs.pushTarget none
    let tmp1 := fs.topTarget
    let fs := fs.pushTarget none
    let tmp2 := fs.topTarget
    let fs := fs.emit source .GETOUTER tmp2 pos 0 0
    let fs := fs.emit source .PINCL tmp1 tmp2 0 (incDiff minus)
    let fs := fs.emit source .SETOUTER tmp2 pos tmp2 0
    fs.popTarget
  else
    let fs := fs.pushTarget none
    let tmp := fs.topTarget
    let fs := fs.emit source .GETOUTER tmp pos 0 0
    let fs := fs.emit source .INCL tmp tmp 0 (incDiff minus)
    fs.emit source .SETOUTER tmp pos tmp 0

/-- `LogicalOrExp` and `LogicalAndExp` at their operator -/
def logical (op : SQOpcode) (second : SQFuncState → SQFuncState) (fs : SQFuncState) :
    SQFuncState :=
  let first_exp := fs.topTarget
  let fs := fs.popTarget.pushTarget none
  let trg := fs.topTarget
  let fs := fs.emit source op trg 0 first_exp 0
  let jpos := fs.getCurrentPos
  let fs := fs.addMove source trg first_exp
  let fs := (second fs).snoozeOpt
  let second_exp := fs.topTarget
  let fs := fs.popTarget.addMove source trg second_exp
  let fs := fs.snoozeOpt
  fs.setArg1 jpos (fs.getCurrentPos - jpos)

/-- `Expression` at a `?` -/
def conditional (first second : SQFuncState → SQFuncState) (fs : SQFuncState) : SQFuncState :=
  let cond := fs.topTarget
  let fs := fs.popTarget.emit source .JZ cond 0 0 0
  let jzpos := fs.getCurrentPos
  let fs := fs.pushTarget none
  let trg := fs.topTarget
  let fs := first fs
  let first_exp := fs.topTarget
  let fs := fs.popTarget.addMove source trg first_exp
  let endfirstexp := fs.getCurrentPos
  let fs := fs.emit source .JMP 0 0 0 0
  let jmppos := fs.getCurrentPos
  let fs := second fs
  let second_exp := fs.topTarget
  let fs := fs.popTarget.addMove source trg second_exp
  let fs := fs.setArg1 jmppos (fs.getCurrentPos - jmppos)
  (fs.setArg1 jzpos (endfirstexp - jzpos + 1)).snoozeOpt

mutual

/-- `CommaExpr`, `Expression` and so on down to `Factor` -/
@[simp]
def Expression.compile : Expression → SQFuncState → SQFuncState
  | .leaf l, fs => l.compile source fs
  | .var pos, fs => fs.pushTarget (some pos)
  | .member o k, fs => (k.compile (o.compile fs)).emit2ArgsOP source .GET 0
  | .unary op e, fs => (e.compile fs).unaryOP source op.opcode
  | .binary op a b, fs => (b.compile (a.compile fs)).binExp source op.opcode op.op3
  | .and a b, fs => logical source .AND (fun fs => b.compile fs) (a.compile fs)
  | .or a b, fs => logical source .OR (fun fs => b.compile fs) (a.compile fs)
  | .conditional c a b, fs =>
    conditional source (fun fs => a.compile fs) (fun fs => b.compile fs) (c.compile fs)
  | .comma a b, fs => b.compile (a.compile fs).popTarget
  | .assign pos e, fs =>
    let fs := e.compile (fs.pushTarget (some pos))
    let src := fs.topTarget
    let fs := fs.popTarget
    fs.emit source .MOVE fs.topTarget src 0 0
  | .assignOuter pos e, fs =>
    let fs := e.compile fs
    let src := fs.topTarget
    fs.popTarget.emitPush source .SETOUTER pos src 0
  | .assignMember o k e, fs => (e.compile (k.compile (o.compile fs))).emitDerefOp source .SET
  | .newSlot o k e, fs => (e.compile (k.compile (o.compile fs))).emitDerefOp source .NEWSLOT
  | .compound op pos e, fs =>
    let fs := e.compile (fs.pushTarget (some pos))
    let p2 := fs.topTarget
    let fs := fs.popTarget
    let p1 := fs.topTarget
    let fs := fs.popTarget.pushTarget (some p1)
    fs.emit source op.operator.opcode p1 p2 p1 0
  | .compoundMember op o k e, fs =>
    let fs := e.compile (k.compile (o.compile fs))
    let val := fs.topTarget
    let fs := fs.popTarget
    let key := fs.topTarget
    let fs := fs.popTarget
    let src := fs.topTarget
    let fs := fs.popTarget
    fs.emitPush source .COMPARITH (packCompArith src val) key op.char.toNat
  | .inc minus post pos, fs => compileInc source minus post pos fs
  | .incOuter minus post pos, fs => compileIncOuter source minus post pos fs
  | .incMember minus post o k, fs =>
    (k.compile (o.compile fs)).emit2ArgsOP source (if post then .PINC else .INC) (incDiff minus)
  | .delete o k, fs => (k.compile (o.compile fs)).emit2ArgsOP source .DELETE 0
  | .array elements, fs =>
    let fs := fs.emitPush source .NEWOBJ 0 0 1
    let apos := fs.getCurrentPos
    let fs := elements.compileElements fs
    fs.setArg1 apos elements.length
  | .call f args, fs =>
    let fs := (f.compile fs).emitPush source .MOVE 0 0 0
    (args.compileArgs fs).endCall source args.length
  | .callMember o k args, fs =>
    let fs := k.compile (o.compile fs)
    let key := fs.topTarget
    let fs := fs.popTarget
    let table := fs.topTarget
    let fs := fs.popTarget.pushTarget none
    let closure := fs.topTarget
    let fs := fs.pushTarget none
    let ttarget := fs.topTarget
    let fs := fs.emit source .PREPCALL closure key table ttarget
    (args.compileArgs fs).endCall source args.length

@[simp]
def Expressions.compileElements : Expressions → SQFuncState → SQFuncState
  | .nil, fs => fs
  | .cons e es, fs =>
    let fs := e.compile fs
    let val := fs.topTarget
    let fs := fs.popTarget
    let array := fs.topTarget
    es.compileElements (fs.emit source .APPENDARRAY array val 0 0)

/-- The loop of `FunctionCallArgs` -/
@[simp]
def Expressions.compileArgs : Expressions → SQFuncState → SQFuncState
  | .nil, fs => fs
  | .cons e es, fs => es.compileArgs ((e.compile fs).moveIfCurrentTargetIsLocal source)

end

end Emission

end Squirt.SQCompiler
