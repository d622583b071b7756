import Mathlib.Algebra.Order.Ring.Int
import Squirt.CodeEmission

/-!
# The code of statements

The statement functions of `SQCompiler`, from the syntax tree of a function body on. An
expression is any sequence of the operations on `SQFuncState` that the expression functions use,
with the jumps of `&&`, `||` and `?:`.
-/

namespace Squirt.SQCompiler

/-- What the functions from `CommaExpr` down do. -/
inductive Exp
  | nil
  | seq (e e' : Exp)
  | instr (op : SQOpcode) (plain : op.isPlain = true) (arg0 arg1 arg2 arg3 : ℤ)
  | pushTarget (n : Option ℕ)
  | popTarget
  | discardTarget
  | pushLocalVariable
  | markLocalAsOuter (pos : ℕ)
  | snoozeOpt
  /-- `&&`, or `||` for `isOr`, after its first operand -/
  | logical (isOr : Bool) (second : Exp)
  /-- `?:` after its condition -/
  | conditional (first second : Exp)

/-- An expression and its label: what is emitted for it has the label as `source`. -/
structure Labelled where
  label : ℕ
  exp : Exp

mutual

/-- A statement that begins in line `line`. -/
inductive Stmt
  | mk (line : ℕ) (form : Form)

inductive Form
  | empty
  /-- an expression, a declaration -/
  | simple (e : Labelled)
  | ifThen (cond : Labelled) (body : Stmt)
  | ifElse (cond : Labelled) (body other : Stmt)
  | while (cond : Labelled) (body : Stmt)
  | doWhile (body : Stmt) (cond : Labelled)
  | for (start : Labelled) (cond : Option Labelled) (increment : Labelled) (body : Stmt)
  | foreach (container : Labelled) (body : Stmt)
  | switch (value : Labelled) (cases : Cases)
  | block (body : Stmts)
  | inNamespace (body : Stmts)
  | break
  | continue
  | return (value : Option Labelled)
  | yield (value : Option Labelled)
  | tryCatch (body handler : Stmt)
  | throw (value : Labelled)

inductive Stmts
  | nil
  | cons (s : Stmt) (ss : Stmts)

/-- The cases of a `switch`, from one on. -/
inductive Cases
  | done
  | default (body : Stmts)
  | case (test : Labelled) (body : Stmts) (rest : Cases)

end

/-- How many bodies of `try` there are around a statement, around the innermost loop or `switch`
and around the innermost loop; not in the source. -/
structure Lexical where
  tries : ℕ
  breakTries : ℕ
  continueTries : ℕ

/-- `if(trg != exp) AddInstruction(_OP_MOVE, trg, exp)` -/
def SQFuncState.addMove (fs : SQFuncState) (source trg exp : ℕ) : SQFuncState :=
  if trg ≠ exp then fs.addInstruction (.ofArgs (some source) .MOVE trg exp 0 0) else fs

namespace Exp

def emit (source : ℕ) : Exp → SQFuncState → SQFuncState
  | nil, fs => fs
  | seq e e', fs => e'.emit source (e.emit source fs)
  | instr op _ arg0 arg1 arg2 arg3, fs =>
    fs.addInstruction (.ofArgs (some source) op arg0 arg1 arg2 arg3)
  | pushTarget n, fs => fs.pushTarget n
  | popTarget, fs => fs.popTarget
  | discardTarget, fs => fs.discardTarget
  | pushLocalVariable, fs => fs.pushLocalVariable
  | markLocalAsOuter pos, fs => fs.markLocalAsOuter pos
  | snoozeOpt, fs => fs.snoozeOpt
  | logical isOr second, fs =>
    let first_exp := fs.topTarget
    let fs := fs.popTarget.pushTarget none
    let trg := fs.topTarget
    let fs := fs.addInstruction
      (.ofArgs (some source) (if isOr then .OR else .AND) trg 0 first_exp 0)
    let jpos := fs.getCurrentPos
    let fs := fs.addMove source trg first_exp
    let fs := (second.emit source fs).snoozeOpt
    let second_exp := fs.topTarget
    let fs := fs.popTarget.addMove source trg second_exp
    let fs := fs.snoozeOpt
    fs.setArg1 jpos (fs.getCurrentPos - jpos)
  | conditional first second, fs =>
    let cond := fs.topTarget
    let fs := fs.popTarget.addInstruction (.ofArgs (some source) .JZ cond 0 0 0)
    let jzpos := fs.getCurrentPos
    let fs := fs.pushTarget none
    let trg := fs.topTarget
    let fs := first.emit source fs
    let first_exp := fs.topTarget
    let fs := fs.popTarget.addMove source trg first_exp
    let endfirstexp := fs.getCurrentPos
    let fs := fs.addInstruction (.ofArgs (some source) .JMP 0 0 0 0)
    let jmppos := fs.getCurrentPos
    let fs := second.emit source fs
    let second_exp := fs.topTarget
    let fs := fs.popTarget.addMove source trg second_exp
    let fs := fs.setArg1 jmppos (fs.getCurrentPos - jmppos)
    (fs.setArg1 jzpos (endfirstexp - jzpos + 1)).snoozeOpt

end Exp

namespace Labelled

variable (e : Labelled) (fs : SQFuncState)

def emit : SQFuncState := e.exp.emit e.label fs

/-- The expression, and the jump on its value. -/
def emitJz (arg1 : ℤ) : SQFuncState :=
  let fs := e.emit fs
  let target := fs.topTarget
  fs.popTarget.addInstruction (.ofArgs (some e.label) .JZ target arg1 0 0)

end Labelled

section Statements

/-- Compiling a statement; `Error` does not come back. -/
abbrev Compile := SQFuncState → Except String SQFuncState

namespace SQFuncState

variable (fs : SQFuncState)

/-- `BEGIN_BREAKBLE_BLOCK` -/
def beginBreakable : SQFuncState :=
  { fs with breaktargets := 0 :: fs.breaktargets, continuetargets := 0 :: fs.continuetargets }

/-- `END_BREAKBLE_BLOCK`; the first two arguments are the lengths at its beginning. -/
def endBreakable (nbreaks ncontinues : ℕ) (continue_target : ℤ) : SQFuncState :=
  let nbreaks := fs.unresolvedbreaks.length - nbreaks
  let ncontinues := fs.unresolvedcontinues.length - ncontinues
  let fs := resolveContinues continue_target ncontinues fs
  let fs := resolveBreaks nbreaks fs
  { fs with breaktargets := fs.breaktargets.tail, continuetargets := fs.continuetargets.tail }

end SQFuncState

variable (fs : SQFuncState) (body other : Compile)

/-- A statement between `BEGIN_SCOPE` and `END_SCOPE`. -/
def inScope : Compile := fun fs => do
  let oldscope := fs.scope
  let fs ← body fs.beginScope
  return fs.endScope oldscope

/-- `IfStatement` without `else` -/
def ifThenStatement (cond : Labelled) : Compile := fun fs => do
  let fs := cond.emitJz fs 0
  let jnepos := fs.getCurrentPos
  let fs ← inScope body fs
  let endifblock := fs.getCurrentPos
  return fs.setArg1 jnepos (endifblock - jnepos)

/-- `IfStatement` with `else` -/
def ifElseStatement (cond : Labelled) : Compile := fun fs => do
  let fs := cond.emitJz fs 0
  let jnepos := fs.getCurrentPos
  let fs ← inScope body fs
  let endifblock := fs.getCurrentPos
  let oldscope := fs.scope
  let fs := fs.beginScope.add .JMP 0 0 0 0
  let jmppos := fs.getCurrentPos
  let fs ← other fs
  let fs := fs.endScope oldscope
  let fs := fs.setArg1 jmppos (fs.getCurrentPos - jmppos)
  return fs.setArg1 jnepos (endifblock - jnepos + 1)

def whileStatement (cond : Labelled) : Compile := fun fs => do
  let jmppos := fs.getCurrentPos
  let fs := cond.emit fs
  let nbreaks := fs.unresolvedbreaks.length
  let ncontinues := fs.unresolvedcontinues.length
  let target := fs.topTarget
  let fs := fs.beginBreakable.popTarget.addInstruction (.ofArgs (some cond.label) .JZ target 0 0 0)
  let jzpos := fs.getCurrentPos
  let fs ← inScope body fs
  let fs := fs.add .JMP 0 (jmppos - fs.getCurrentPos - 1) 0 0
  let fs := fs.setArg1 jzpos (fs.getCurrentPos - jzpos)
  return fs.endBreakable nbreaks ncontinues jmppos

def doWhileStatement (cond : Labelled) : Compile := fun fs => do
  let jmptrg := fs.getCurrentPos
  let nbreaks := fs.unresolvedbreaks.length
  let ncontinues := fs.unresolvedcontinues.length
  let fs ← inScope body fs.beginBreakable
  let continuetrg := fs.getCurrentPos
  let fs := cond.emitJz fs 1
  let fs := fs.add .JMP 0 (jmptrg - fs.getCurrentPos - 1) 0 0
  return fs.endBreakable nbreaks ncontinues continuetrg

/-- The increment of a `for`, added again after the body. -/
def readd (fs : SQFuncState) (exp : List SQInstruction) : SQFuncState :=
  exp.foldl .addInstruction fs

/-- How long the code is before each instruction of the increment, and in the end. -/
def readdLengths (fs : SQFuncState) : List SQInstruction → List ℕ
  | [] => [fs.instructions.length]
  | i :: exp => fs.instructions.length :: readdLengths (fs.addInstruction i) exp

/-- The condition of a `for`, and `jzpos`. -/
def forCondition (fs : SQFuncState) : Option Labelled → SQFuncState × ℤ
  | some cond =>
    let fs := cond.emitJz fs 0
    (fs, fs.getCurrentPos)
  | none => (fs, -1)

def forStatement (start : Labelled) (cond : Option Labelled) (increment : Labelled) : Compile :=
  fun fs => do
  let oldscope := fs.scope
  let fs := (start.emit fs.beginScope).snoozeOpt
  let jmppos := fs.getCurrentPos
  let (fs, jzpos) := forCondition fs cond
  let fs := fs.snoozeOpt
  let expstart := fs.instructions.length
  let fs := (increment.emit fs).snoozeOpt
  let exp := fs.instructions.drop expstart
  let fs := fs.popInstructions exp.length
  let nbreaks := fs.unresolvedbreaks.length
  let ncontinues := fs.unresolvedcontinues.length
  let fs ← body fs.beginBreakable
  let continuetrg := fs.getCurrentPos
  let lengths := readdLengths fs exp
  let fs := { readd fs exp with notes := .increment jzpos exp lengths :: fs.notes }
  let fs := fs.add .JMP 0 (jmppos - fs.getCurrentPos - 1) 0 0
  let fs := if jzpos > 0 then fs.setArg1 jzpos (fs.getCurrentPos - jzpos) else fs
  return (fs.endScope oldscope).endBreakable nbreaks ncontinues continuetrg

def foreachStatement (container : Labelled) : Compile := fun fs => do
  let oldscope := fs.scope
  let fs := container.emit fs.beginScope
  let source := some container.label
  let target := fs.topTarget
  let indexpos := fs.getStackSize
  let fs := fs.pushLocalVariable.add .LOADNULLS indexpos 1 0 0
  let valuepos := fs.getStackSize
  let fs := fs.pushLocalVariable.add .LOADNULLS valuepos 1 0 0
  let itrpos := fs.getStackSize
  let fs := fs.pushLocalVariable.add .LOADNULLS itrpos 1 0 0
  let jmppos := fs.getCurrentPos
  let fs := fs.addInstruction (.ofArgs source .FOREACH target 0 indexpos 0)
  let foreachpos := fs.getCurrentPos
  let fs := fs.addInstruction (.ofArgs source .POSTFOREACH target 0 indexpos 0)
  let nbreaks := fs.unresolvedbreaks.length
  let ncontinues := fs.unresolvedcontinues.length
  let fs ← body fs.beginBreakable
  let fs := fs.add .JMP 0 (jmppos - fs.getCurrentPos - 1) 0 0
  let fs := fs.setArg1 foreachpos (fs.getCurrentPos - foreachpos)
  let fs := fs.setArg1 (foreachpos + 1) (fs.getCurrentPos - foreachpos)
  let fs := fs.endBreakable nbreaks ncontinues (foreachpos - 1)
  return fs.popTarget.endScope oldscope

/-- One case of a `switch`; `expr` is the register of its value, and the positions are
`tonextcondjmp` before and after. -/
def caseClause (expr : ℕ) (test : Labelled) (tonextcondjmp : ℤ) : SQFuncState →
    Except String (SQFuncState × ℤ) := fun fs => do
  let (fs, skipcondjmp) :=
    if tonextcondjmp ≠ -1 then
      let fs := fs.add .JMP 0 0 0 0
      let skipcondjmp := fs.getCurrentPos
      (fs.setArg1 tonextcondjmp (fs.getCurrentPos - tonextcondjmp), skipcondjmp)
    else (fs, -1)
  let fs := test.emit fs
  let trg := fs.topTarget
  let fs := fs.popTarget.add .EQ trg trg expr 0
  let fs := fs.addInstruction (.ofArgs (some test.label) .JZ trg 0 0 0)
  let fs := if skipcondjmp ≠ -1 then
    fs.setArg1 skipcondjmp (fs.getCurrentPos - skipcondjmp) else fs
  let tonextcondjmp := fs.getCurrentPos
  let fs ← inScope body fs
  return (fs, tonextcondjmp)

/-- After the last case: the `default` or nothing. -/
def afterCases (body : Option Compile) (tonextcondjmp : ℤ) : Compile := fun fs => do
  let fs := if tonextcondjmp ≠ -1 then
    fs.setArg1 tonextcondjmp (fs.getCurrentPos - tonextcondjmp) else fs
  match body with
  | some body => inScope body fs
  | none => return fs

/-- `SwitchStatement` around its cases, which get the register of the value. -/
def switchStatement (value : Labelled) (cases : ℕ → Compile) : Compile := fun fs => do
  let fs := value.emit fs
  let expr := fs.topTarget
  let nbreaks := fs.unresolvedbreaks.length
  let fs ← cases expr { fs with breaktargets := 0 :: fs.breaktargets }
  let fs := fs.popTarget
  let nbreaks := fs.unresolvedbreaks.length - nbreaks
  let fs := SQFuncState.resolveBreaks nbreaks fs
  return { fs with breaktargets := fs.breaktargets.tail }

/-- The code block of `Statement(true)` -/
def blockStatement : Compile := inScope body

/-- `_OP_POPTRAP`, if there is a trap to pop. -/
def addPopTrap (ntraps : ℕ) : SQFuncState :=
  if ntraps > 0 then fs.add .POPTRAP ntraps 0 0 0 else fs

def breakStatement (tries : ℕ) : Compile := fun fs =>
  match fs.breaktargets with
  | [] => .error "'break' has to be in a loop block"
  | ntraps :: _ =>
    let fs := (addPopTrap fs ntraps).resolveOuters.add .JMP 0 (-1234) 0 0
    .ok { fs with
      unresolvedbreaks := fs.getCurrentPos :: fs.unresolvedbreaks
      notes := .jump fs.getCurrentPos tries :: fs.notes }

def continueStatement (tries : ℕ) : Compile := fun fs =>
  match fs.continuetargets with
  | [] => .error "'continue' has to be in a loop block"
  | ntraps :: _ =>
    let fs := (addPopTrap fs ntraps).resolveOuters.add .JMP 0 (-1234) 0 0
    .ok { fs with
      unresolvedcontinues := fs.getCurrentPos :: fs.unresolvedcontinues
      notes := .jump fs.getCurrentPos tries :: fs.notes }

/-- `return` or `yield` -/
def returnStatement (op : SQOpcode) (value : Option Labelled) : SQFuncState :=
  match value with
  | some value =>
    let retexp := fs.getCurrentPos + 1
    let fs := value.emit fs
    let fs := if op = .RETURN then addPopTrap fs fs.traps else fs
    let target := fs.topTarget
    let fs := { fs.popTarget with returnexp := retexp }
    fs.add op 1 target fs.getStackSize 0
  | none =>
    let fs := if op = .RETURN then addPopTrap fs fs.traps else fs
    let fs := { fs with returnexp := -1 }
    fs.add op 0xFF 0 fs.getStackSize 0

/-- Changing the top of a stack, when it has one. -/
def modifyTop (f : ℕ → ℕ) : List ℕ → List ℕ
  | [] => []
  | n :: ns => f n :: ns

/-- `_traps++`, and the counts of the innermost targets -/
def countTrap : SQFuncState :=
  { fs with
    traps := fs.traps + 1
    breaktargets := modifyTop (· + 1) fs.breaktargets
    continuetargets := modifyTop (· + 1) fs.continuetargets }

/-- `_traps--` -/
def uncountTrap : SQFuncState := { fs with traps := fs.traps - 1 }

/-- The counts of the innermost targets, at the end of a body of `try` -/
def uncountTargets : SQFuncState :=
  { fs with
    breaktargets := modifyTop (· - 1) fs.breaktargets
    continuetargets := modifyTop (· - 1) fs.continuetargets }

def tryCatchStatement (handler : Compile) : Compile := fun fs => do
  let fs := countTrap (fs.add .PUSHTRAP 0 0 0 0)
  let trappos := fs.getCurrentPos
  let fs ← inScope body fs
  let fs := uncountTargets ((uncountTrap fs).add .POPTRAP 1 0 0 0)
  let fs := fs.add .JMP 0 0 0 0
  let jmppos := fs.getCurrentPos
  let fs := fs.setArg1 trappos (fs.getCurrentPos - trappos)
  let oldscope := fs.scope
  let fs := fs.beginScope
  let ex_target := fs.getStackSize
  let fs ← handler (fs.pushLocalVariable.setArg0 trappos ex_target)
  let fs := fs.setIntructionParams jmppos 0 (fs.getCurrentPos - jmppos)
  return fs.endScope oldscope

def throwStatement (value : Labelled) : SQFuncState :=
  let fs := value.emit fs
  let target := fs.topTarget
  fs.popTarget.add .THROW target 0 0 0

/-- What `Statement` does around each form. -/
def withStatement (line tries : ℕ) : Compile := fun fs => do
  let fs := fs.addLineInfos line false
  let fs ← body { fs with notes := .statement (fs.getCurrentPos + 1) tries :: fs.notes }
  return fs.snoozeOpt

end Statements

mutual

/-- `Statement` -/
def Stmt.compile (lex : Lexical) : Stmt → Compile
  | .mk line form => withStatement (form.compile lex) line lex.tries

def Form.compile (lex : Lexical) : Form → Compile
  | .empty => fun fs => .ok fs
  | .simple e => fun fs => .ok (e.emit fs)
  | .ifThen cond body => ifThenStatement (body.compile lex) cond
  | .ifElse cond body other => ifElseStatement (body.compile lex) (other.compile lex) cond
  | .while cond body =>
    whileStatement (body.compile ⟨lex.tries, lex.tries, lex.tries⟩) cond
  | .doWhile body cond =>
    doWhileStatement (body.compile ⟨lex.tries, lex.tries, lex.tries⟩) cond
  | .for start cond increment body =>
    forStatement (body.compile ⟨lex.tries, lex.tries, lex.tries⟩) start cond increment
  | .foreach container body =>
    foreachStatement (body.compile ⟨lex.tries, lex.tries, lex.tries⟩) container
  | .switch value cases =>
    switchStatement value fun expr =>
      cases.compile ⟨lex.tries, lex.tries, lex.continueTries⟩ expr (-1)
  | .block body => blockStatement (body.compile lex)
  | .inNamespace body => body.compile lex
  | .break => breakStatement lex.breakTries
  | .continue => continueStatement lex.continueTries
  | .return value => fun fs => .ok (returnStatement fs .RETURN value)
  | .yield value => fun fs => .ok (returnStatement fs .YIELD value)
  | .tryCatch body handler =>
    tryCatchStatement (body.compile { lex with tries := lex.tries + 1 }) (handler.compile lex)
  | .throw value => fun fs => .ok (throwStatement fs value)

/-- `Statements` -/
def Stmts.compile (lex : Lexical) : Stmts → Compile
  | .nil => fun fs => .ok fs
  | .cons s ss => fun fs => s.compile lex fs >>= ss.compile lex

def Cases.compile (lex : Lexical) (expr : ℕ) : Cases → ℤ → Compile
  | .done, tonextcondjmp => afterCases none tonextcondjmp
  | .default body, tonextcondjmp => afterCases (some (body.compile lex)) tonextcondjmp
  | .case test body rest, tonextcondjmp => fun fs => do
    let (fs, tonextcondjmp) ← caseClause (body.compile lex) expr test tonextcondjmp fs
    rest.compile lex expr tonextcondjmp fs

end

/-- What a function is compiled from. -/
inductive Body
  /-- the script -/
  | main (body : Stmts)
  /-- `parameters` counts `this` as well -/
  | function (parameters : ℕ) (body : Stmt)
  | lambda (parameters : ℕ) (value : Labelled)

/-- `SQFuncState(ss, parent, ..)` with its parameters -/
def SQFuncState.create (fusion lineinfo parent : Bool) (parameters : ℕ) : SQFuncState where
  fusion := fusion
  lineinfo := lineinfo
  parent := parent
  instructions := []
  optimization := true
  lastline := 0
  returnexp := 0
  vlocals := List.replicate parameters ⟨true, false⟩
  targetstack := []
  outers := 0
  scope := 0
  traps := 0
  breaktargets := []
  continuetargets := []
  unresolvedbreaks := []
  unresolvedcontinues := []
  notes := []

/-- The code block of `Statement(false)` -/
def blockStatementNoClose (body : Compile) : Compile := fun fs => do
  let oldscope := fs.scope
  let fs ← body fs.beginScope
  return fs.endScopeNoClose oldscope

/-- `Statement(false)` -/
def Stmt.compileNoClose (lex : Lexical) : Stmt → Compile
  | .mk line (.block body) => withStatement (blockStatementNoClose (body.compile lex)) line lex.tries
  | s => s.compile lex

/-- The end of a function: `line` is its last. -/
def endFunction (fs : SQFuncState) (line : ℕ) (arg0 : ℤ) : SQFuncState :=
  (fs.addLineInfos line true).add .RETURN arg0 0 0 0

/-- `Compile`, and `CreateFunction` from the body on -/
def Body.compile (fusion lineinfo : Bool) (line : ℕ) : Body → Except String SQFuncState
  | .main body => do
    let fs ← body.compile ⟨0, 0, 0⟩ (.create fusion lineinfo false 2)
    return endFunction (fs.setStackSize 2) line 0xFF
  | .function parameters body => do
    let fs ← body.compileNoClose ⟨0, 0, 0⟩ (.create fusion lineinfo true parameters)
    return endFunction fs line (-1)
  | .lambda parameters value =>
    let fs := value.emit (.create fusion lineinfo true parameters)
    let target := fs.topTarget
    .ok (endFunction (fs.popTarget.add .RETURN 1 target 0 0) line (-1))

end Squirt.SQCompiler
