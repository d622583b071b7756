import Mathlib.Data.List.Infix

/-!
# Emitting instructions

`SQFuncState` as far as the instructions of one function go: `AddInstruction` with its
optimizer, the jumps that wait for their target, the local variables and the targets. The
offset of an instruction is not bounded to 32 bits.
-/

namespace Squirt.SQCompiler

inductive SQOpcode
  | LINE | LOAD | LOADINT | LOADFLOAT | DLOAD | TAILCALL | CALL | PREPCALL | PREPCALLK | GETK
  | MOVE | NEWSLOT | DELETE | SET | GET | EQ | NE | ADD | SUB | MUL | DIV | MOD | BITW | RETURN
  | LOADNULLS | LOADROOT | LOADBOOL | DMOVE | JMP | JCMP | JZ | SETOUTER | GETOUTER | NEWOBJ
  | APPENDARRAY | COMPARITH | INC | INCL | PINC | PINCL | CMP | EXISTS | INSTANCEOF | AND | OR
  | NEG | NOT | BWNOT | CLOSURE | YIELD | RESUME | FOREACH | POSTFOREACH | CLONE | TYPEOF
  | PUSHTRAP | POPTRAP | THROW | NEWSLOTA | GETBASE | CLOSE | DYNAMICCAST
  deriving DecidableEq

/-- Does nothing to the traps, and the next instruction comes next. -/
def SQOpcode.isPlain : SQOpcode → Bool
  | TAILCALL | RETURN | JMP | JCMP | JZ | AND | OR | YIELD | FOREACH | POSTFOREACH | PUSHTRAP
  | POPTRAP | THROW => false
  | _ => true

/-- `source` is not in the code: the expression of the program that the instruction was
emitted for, if any. -/
structure SQInstruction where
  op : SQOpcode
  arg0 : BitVec 8
  arg1 : ℤ
  arg2 : BitVec 8
  arg3 : BitVec 8
  source : Option ℕ
  deriving DecidableEq

/-- `SQInstruction(_op, a0, a1, a2, a3)` -/
def SQInstruction.ofArgs (source : Option ℕ) (op : SQOpcode) (a0 a1 a2 a3 : ℤ) :
    SQInstruction :=
  ⟨op, .ofInt 8 a0, a1, .ofInt 8 a2, .ofInt 8 a3, source⟩

/-- A temporary has no name; the `_end_op` of an `outer` is `UINT_MINUS_ONE`. -/
structure SQLocalVarInfo where
  named : Bool
  outer : Bool

/-- What the compiler is asked to note besides the code; not in the source. -/
inductive Note
  /-- a statement inside `tries` bodies of `try` begins at `pos` -/
  | statement (pos : ℤ) (tries : ℕ)
  /-- the jump at `pos` leaves or continues a statement inside `tries` bodies of `try` -/
  | jump (pos : ℤ) (tries : ℕ)
  /-- the increment `exp` of a `for` with that `jzpos` was added again, with the lengths of the
  code on the way -/
  | increment (jzpos : ℤ) (exp : List SQInstruction) (lengths : List ℕ)

/-- Stacks list their last element first. With `fusion` off, `_optimization` counts as false
throughout. `scope` is `_scope.stacksize` of the compiler and `lineinfo` its `_lineinfo`. -/
structure SQFuncState where
  fusion : Bool
  lineinfo : Bool
  parent : Bool
  instructions : List SQInstruction
  optimization : Bool
  lastline : ℕ
  returnexp : ℤ
  vlocals : List SQLocalVarInfo
  targetstack : List ℕ
  outers : ℤ
  scope : ℕ
  traps : ℕ
  breaktargets : List ℕ
  continuetargets : List ℕ
  unresolvedbreaks : List ℤ
  unresolvedcontinues : List ℤ
  notes : List Note

/-- What the optimizer makes of the previous instruction and the new one. -/
inductive Fused
  | keep (pi i : SQInstruction)
  | merge (pi : SQInstruction) (optimization : Bool)

/-- `AppendArrayType` of a literal in the case `_OP_APPENDARRAY` of `AddInstruction` -/
def appendArrayType : SQOpcode → Option (BitVec 8)
  | .LOAD => some 1
  | .LOADINT => some 2
  | .LOADBOOL => some 4
  | .LOADFLOAT => some 3
  | _ => none

namespace SQFuncState

variable (fs : SQFuncState)

def isLocal (stkpos : ℕ) : Bool :=
  match fs.vlocals[stkpos]? with
  | some lvi => lvi.named
  | none => false

/-- The `switch` of `AddInstruction`; `pi` is the previous instruction. -/
def fuse (pi i : SQInstruction) : Fused :=
  match i.op with
  | .JZ =>
    if pi.op = .CMP ∧ pi.arg1 < 0xFF then
      .merge { pi with op := .JCMP, arg0 := .ofInt 8 pi.arg1, arg1 := i.arg1 } true
    -- no `break`: the next case is executed as well
    else if i.arg0 = i.arg3 then .keep pi { i with arg0 := 0xFF }
    else .keep pi i
  | .SET | .NEWSLOT => if i.arg0 = i.arg3 then .keep pi { i with arg0 := 0xFF } else .keep pi i
  | .SETOUTER => if i.arg0 = i.arg2 then .keep pi { i with arg0 := 0xFF } else .keep pi i
  | .RETURN =>
    if fs.parent ∧ i.arg0 ≠ 0xFF ∧ pi.op = .CALL ∧
        fs.returnexp < (fs.instructions.length : ℤ) - 1 then
      .keep { pi with op := .TAILCALL } i
    else if pi.op = .CLOSE then .merge i true
    else .keep pi i
  | .GET =>
    if pi.op = .LOAD ∧ pi.arg0 = i.arg2 ∧ !fs.isLocal pi.arg0.toNat then
      .merge { pi with op := .GETK, arg0 := i.arg0, arg2 := .ofInt 8 i.arg1 } true
    else .keep pi i
  | .PREPCALL =>
    if pi.op = .LOAD ∧ (pi.arg0.toNat : ℤ) = i.arg1 ∧ !fs.isLocal pi.arg0.toNat then
      .merge { pi with op := .PREPCALLK, arg0 := i.arg0, arg2 := i.arg2, arg3 := i.arg3 } true
    else .keep pi i
  | .APPENDARRAY =>
    match appendArrayType pi.op with
    | some aat =>
      if (pi.arg0.toNat : ℤ) = i.arg1 ∧ !fs.isLocal pi.arg0.toNat then
        .merge { pi with op := .APPENDARRAY, arg0 := i.arg0, arg2 := aat, arg3 := 0xFF } true
      else .keep pi i
    | none => .keep pi i
  | .MOVE =>
    if pi.op ∈ [.GET, .ADD, .SUB, .MUL, .DIV, .MOD, .BITW, .LOADINT, .LOADFLOAT, .LOADBOOL,
        .LOAD] ∧ (pi.arg0.toNat : ℤ) = i.arg1 then
      .merge { pi with arg0 := i.arg0 } false
    else if pi.op = .MOVE then
      .merge { pi with op := .DMOVE, arg2 := i.arg0, arg3 := .ofInt 8 i.arg1 } true
    else .keep pi i
  | .LOAD =>
    if pi.op = .LOAD ∧ i.arg1 < 256 then
      .merge { pi with op := .DLOAD, arg2 := i.arg0, arg3 := .ofInt 8 i.arg1 } true
    else .keep pi i
  | .EQ | .NE =>
    if pi.op = .LOAD ∧ (pi.arg0.toNat : ℤ) = i.arg1 ∧ !fs.isLocal pi.arg0.toNat then
      .merge { pi with op := i.op, arg0 := i.arg0, arg2 := i.arg2, arg3 := 0xFF } true
    else .keep pi i
  | .LOADNULLS =>
    if pi.op = .LOADNULLS ∧ (pi.arg0.toNat : ℤ) + pi.arg1 = i.arg0.toNat then
      .merge { pi with arg1 := pi.arg1 + 1 } true
    else .keep pi i
  | .LINE => if pi.op = .LINE then .merge i true else .keep pi i
  | _ => .keep pi i

def addInstruction (i : SQInstruction) : SQFuncState :=
  match fs.instructions.getLast? with
  | some pi =>
    if fs.fusion ∧ fs.optimization then
      match fs.fuse pi i with
      | .merge pi optimization =>
        { fs with instructions := fs.instructions.dropLast ++ [pi], optimization }
      | .keep pi i =>
        { fs with instructions := fs.instructions.dropLast ++ [pi, i], optimization := true }
    else { fs with instructions := fs.instructions ++ [i], optimization := true }
  | none => { fs with instructions := fs.instructions ++ [i], optimization := true }

/-- `AddInstruction(_op, arg0, arg1, arg2, arg3)` of what is not an expression. -/
def add (op : SQOpcode) (a0 a1 a2 a3 : ℤ) : SQFuncState :=
  fs.addInstruction (.ofArgs none op a0 a1 a2 a3)

def snoozeOpt : SQFuncState := { fs with optimization := false }

def getCurrentPos : ℤ := fs.instructions.length - 1

def modifyInstruction (pos : ℤ) (f : SQInstruction → SQInstruction) : SQFuncState :=
  if 0 ≤ pos then { fs with instructions := fs.instructions.modify pos.toNat f } else fs

/-- `SetIntructionParams(pos, arg0, arg1, 0, 0)` -/
def setIntructionParams (pos arg0 arg1 : ℤ) : SQFuncState :=
  fs.modifyInstruction pos fun i => { i with arg0 := .ofInt 8 arg0, arg1, arg2 := 0, arg3 := 0 }

/-- `SetIntructionParam(pos, 0, val)` -/
def setArg0 (pos val : ℤ) : SQFuncState :=
  fs.modifyInstruction pos fun i => { i with arg0 := .ofInt 8 val }

/-- `SetIntructionParam(pos, 1, val)` -/
def setArg1 (pos val : ℤ) : SQFuncState :=
  fs.modifyInstruction pos fun i => { i with arg1 := val }

def popInstructions (size : ℕ) : SQFuncState :=
  { fs with instructions := fs.instructions.take (fs.instructions.length - size) }

def getStackSize : ℕ := fs.vlocals.length

/-- `PushTarget(n)`, and `PushTarget()` for `none` -/
def pushTarget : Option ℕ → SQFuncState
  | some n => { fs with targetstack := n :: fs.targetstack }
  | none =>
    { fs with
      vlocals := fs.vlocals ++ [⟨false, false⟩]
      targetstack := fs.vlocals.length :: fs.targetstack }

def topTarget : ℕ := fs.targetstack.head?.getD 0

def popTarget : SQFuncState :=
  let vlocals := match fs.vlocals[fs.topTarget]? with
    | some lvi => if lvi.named then fs.vlocals else fs.vlocals.dropLast
    | none => fs.vlocals
  { fs with vlocals, targetstack := fs.targetstack.tail }

def pushLocalVariable : SQFuncState := { fs with vlocals := fs.vlocals ++ [⟨true, false⟩] }

def markLocalAsOuter (pos : ℕ) : SQFuncState :=
  { fs with
    vlocals := fs.vlocals.modify pos fun lvi => { lvi with outer := true }
    outers := fs.outers + 1 }

def countOuters (stacksize : ℕ) : ℕ := (fs.vlocals.drop stacksize).countP (·.outer)

def setStackSize (n : ℕ) : SQFuncState :=
  { fs with
    vlocals := fs.vlocals.take n
    outers := fs.outers - (fs.vlocals.drop n).countP fun lvi => lvi.named && lvi.outer }

def discardTarget : SQFuncState :=
  let discardedtarget := fs.topTarget
  let fs := fs.popTarget
  match fs.instructions.getLast? with
  | some pi =>
    if fs.fusion ∧ fs.optimization ∧ pi.op ∈ [.SET, .NEWSLOT, .SETOUTER, .CALL] ∧
        pi.arg0.toNat = discardedtarget then
      { fs with instructions := fs.instructions.dropLast ++ [{ pi with arg0 := 0xFF }] }
    else fs
  | none => fs

/-- `AddLineInfos`, less the table of lines -/
def addLineInfos (line : ℕ) (force : Bool) : SQFuncState :=
  if fs.lastline ≠ line ∨ force then
    let fs := if fs.lineinfo then fs.add .LINE 0 line 0 0 else fs
    { fs with lastline := line }
  else fs

def beginScope : SQFuncState := { fs with scope := fs.getStackSize }

def endScope (oldscope : ℕ) : SQFuncState :=
  let oldouters := fs.outers
  let scope := fs.scope
  let fs :=
    if fs.getStackSize ≠ scope then
      let fs := fs.setStackSize scope
      if oldouters ≠ fs.outers then fs.add .CLOSE 0 scope 0 0 else fs
    else fs
  { fs with scope := oldscope }

def endScopeNoClose (oldscope : ℕ) : SQFuncState :=
  let fs := if fs.getStackSize ≠ fs.scope then fs.setStackSize fs.scope else fs
  { fs with scope := oldscope }

def resolveOuters : SQFuncState :=
  if fs.getStackSize ≠ fs.scope then
    if fs.countOuters fs.scope ≠ 0 then fs.add .CLOSE 0 fs.scope 0 0 else fs
  else fs

/-- `ResolveBreaks`; the last `ntoresolve` unresolved jumps go to the current position. -/
def resolveBreaks : ℕ → SQFuncState → SQFuncState
  | 0, fs => fs
  | ntoresolve + 1, fs =>
    match fs.unresolvedbreaks with
    | [] => fs
    | pos :: rest =>
      let fs := { fs with unresolvedbreaks := rest }
      resolveBreaks ntoresolve (fs.setIntructionParams pos 0 (fs.getCurrentPos - pos))

def resolveContinues (targetpos : ℤ) : ℕ → SQFuncState → SQFuncState
  | 0, fs => fs
  | ntoresolve + 1, fs =>
    match fs.unresolvedcontinues with
    | [] => fs
    | pos :: rest =>
      let fs := { fs with unresolvedcontinues := rest }
      resolveContinues targetpos ntoresolve (fs.setIntructionParams pos 0 (targetpos - pos))

end SQFuncState

end Squirt.SQCompiler
