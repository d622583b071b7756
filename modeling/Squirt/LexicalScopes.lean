import Mathlib.Data.Int.Basic
import Mathlib.Data.List.Basic

/-!
# Names at compile time

`SQFuncState` as far as the names of variables go, and what the compiler does with it for blocks,
declarations, identifiers and nested functions. An expression is the temporaries it takes, with
the identifiers, functions and declarations between them.
-/

namespace Squirt.Scoping

inductive SQOuterType
  | otLOCAL
  | otOUTER
  deriving DecidableEq

/-- `_src` is a register of the parent or an index into its `_outervalues`. -/
structure SQOuterVar where
  name : String
  src : ℕ
  type : SQOuterType
  deriving DecidableEq

/-- A temporary has no name; the `_end_op` of an `outer` is `UINT_MINUS_ONE`. -/
structure SQLocalVarInfo where
  name : Option String
  outer : Bool

/-- What `Factor` makes of an identifier. -/
inductive Operand
  | local (pos : ℕ)
  | outer (pos : ℕ)
  /-- a constant or a field of `this` -/
  | other
  deriving DecidableEq

/-- An identifier with its operand. Not in the source: `declaration` is the innermost declaration
of the name that is visible, by the number of functions around that one has to leave for it and
its register there. -/
structure Occurrence where
  name : String
  operand : Operand
  declaration : Option (ℕ × ℕ)

/-- A compiled function, less its instructions but for the identifiers. -/
inductive SQFunctionProto
  | mk (outervalues : List SQOuterVar) (functions : List SQFunctionProto)
    (occurrences : List Occurrence)

namespace SQFunctionProto

def outervalues : SQFunctionProto → List SQOuterVar
  | mk outervalues _ _ => outervalues

def functions : SQFunctionProto → List SQFunctionProto
  | mk _ functions _ => functions

def occurrences : SQFunctionProto → List Occurrence
  | mk _ _ occurrences => occurrences

end SQFunctionProto

/-- Not in the source: `occurrences` collects the identifiers, `visible` are the names that are
visible in the function with their registers, the latest first, and `asserted` tells whether every
`PopTarget` so far, of the function and those in it, found its register in `_vlocals`. -/
structure SQFuncState where
  vlocals : List SQLocalVarInfo
  outers : ℤ
  outervalues : List SQOuterVar
  functions : List SQFunctionProto
  occurrences : List Occurrence
  visible : List (String × ℕ)
  asserted : Bool

namespace SQFuncState

variable (fs : SQFuncState)

/-- `AllocStackPos` of a temporary -/
def pushTemporary : SQFuncState := { fs with vlocals := fs.vlocals ++ [⟨none, false⟩] }

/-- `PopTarget`, of a target in register `npos` -/
def popTarget (npos : ℕ) : SQFuncState :=
  match fs.vlocals[npos]? with
  | some ⟨none, _⟩ => { fs with vlocals := fs.vlocals.dropLast }
  | some _ => fs
  | none => { fs with asserted := false }

def pushLocalVariable (name : String) : SQFuncState :=
  { fs with
    vlocals := fs.vlocals ++ [⟨some name, false⟩]
    visible := (name, fs.vlocals.length) :: fs.visible }

/-- The loop of `GetLocalVariable` -/
def searchLocal (vlocals : List SQLocalVarInfo) (name : String) : ℕ → Option ℕ
  | 0 => none
  | locals + 1 =>
    match vlocals[locals]? with
    | some ⟨some n, _⟩ => if n = name then some locals else searchLocal vlocals name locals
    | _ => searchLocal vlocals name locals

def getLocalVariable (name : String) : Option ℕ :=
  searchLocal fs.vlocals name fs.vlocals.length

def markLocalAsOuter (pos : ℕ) : SQFuncState :=
  { fs with
    vlocals := fs.vlocals.modify pos fun lvi => { lvi with outer := true }
    outers := fs.outers + 1 }

def setStackSize (n : ℕ) : SQFuncState :=
  { fs with
    vlocals := fs.vlocals.take n
    outers := fs.outers - (fs.vlocals.drop n).countP fun lvi => lvi.name.isSome && lvi.outer }

/-- `_outervalues.push_back(SQOuterVar(name, pos, type))` -/
def pushOuter (name : String) (pos : ℕ) (type : SQOuterType) : SQFuncState :=
  { fs with outervalues := fs.outervalues ++ [⟨name, pos, type⟩] }

end SQFuncState

/-- `SQFuncState(ss, parent, ..)` with its parameters -/
def SQFuncState.create (parameters : List String) : SQFuncState :=
  parameters.foldl pushLocalVariable ⟨[], 0, [], [], [], [], true⟩

/-- `GetOuterVariable` of the first of the functions, each in the next one -/
def getOuterVariable (name : String) : List SQFuncState → Option ℕ × List SQFuncState
  | [] => (none, [])
  | fs :: parents =>
    match fs.outervalues.findIdx? (·.name = name) with
    | some i => (some i, fs :: parents)
    | none =>
      match parents with
      | [] => (none, [fs])
      | parent :: rest =>
        match parent.getLocalVariable name with
        | some pos =>
          (some fs.outervalues.length,
            fs.pushOuter name pos .otLOCAL :: parent.markLocalAsOuter pos :: rest)
        | none =>
          match getOuterVariable name (parent :: rest) with
          | (some pos, parents) =>
            (some fs.outervalues.length, fs.pushOuter name pos .otOUTER :: parents)
          | (none, parents) => (none, fs :: parents)

/-- The innermost declaration of a name that is visible in the first of the functions; not in the
source. -/
def declaration (name : String) : List SQFuncState → Option (ℕ × ℕ)
  | [] => none
  | fs :: parents =>
    match fs.visible.lookup name with
    | some pos => some (0, pos)
    | none => (declaration name parents).map fun (level, pos) => (level + 1, pos)

/-- `_fs` and the functions around it -/
structure SQCompiler where
  fs : SQFuncState
  parents : List SQFuncState

mutual

/-- What matters for names in a function body. -/
inductive Item
  /-- an identifier, with what is compiled before the `PopTarget` of its register; `constant` tells
  whether `IsConstant` knows the name -/
  | identifier (name : String) (constant : Bool) (inner : Items)
  /-- what is between `PushTarget(0)` and its `PopTarget` in `FunctionStatement` -/
  | slot (inner : Items)
  /-- `local`, or a type and a name -/
  | declare (name : String)
  /-- what is between `PushTarget()` and its `PopTarget` -/
  | temporary (inner : Items)
  | block (inner : Items)
  /-- `temporary` tells whether the container is in a register of its own -/
  | foreach (container : Items) (temporary : Bool) (idxname valname : String) (body : Items)
  /-- `CreateFunction` from the body on -/
  | function (parameters : List String) (body : Items)

inductive Items
  | nil
  | cons (item : Item) (items : Items)

end

namespace SQCompiler

variable (c : SQCompiler)

/-- Something done to `_fs` -/
def modify (f : SQFuncState → SQFuncState) : SQCompiler := { c with fs := f c.fs }

/-- The end of a scope: what was declared since the beginning `c₀` is not visible any more. -/
def endScope (c₀ : SQCompiler) : SQCompiler :=
  c.modify fun fs => { fs.setStackSize c₀.fs.vlocals.length with visible := c₀.fs.visible }

/-- The identifier case of `Factor`, with the register of `PushTarget` unless that is a new one -/
def factor (name : String) (constant : Bool) : SQCompiler × Option ℕ :=
  let declaration := declaration name (c.fs :: c.parents)
  let note (operand : Operand) (fs : SQFuncState) : SQFuncState :=
    { fs with occurrences := fs.occurrences ++ [⟨name, operand, declaration⟩] }
  match c.fs.getLocalVariable name with
  | some pos => ({ c with fs := note (.local pos) c.fs }, some pos)
  | none =>
    match getOuterVariable name (c.fs :: c.parents) with
    | (some pos, fs :: parents) => (⟨note (.outer pos) fs, parents⟩, none)
    | (_, _) => ({ c with fs := note .other c.fs }, if constant then none else some 0)

/-- `PopTarget` of what `factor` has pushed -/
def popTarget : Option ℕ → SQCompiler
  | some npos => c.modify (·.popTarget npos)
  | none => c

def buildProto : SQFunctionProto := .mk c.fs.outervalues c.fs.functions c.fs.occurrences

end SQCompiler

/-- `_functions.push_back(func)`, for what has been compiled in the function -/
def SQFuncState.pushFunction (fs : SQFuncState) (child : SQCompiler) : SQFuncState :=
  { fs with
    functions := fs.functions ++ [child.buildProto]
    asserted := fs.asserted && child.fs.asserted }

mutual

def Item.compile : Item → SQCompiler → SQCompiler
  | .identifier name constant inner, c =>
    let (c', target) := c.factor name constant
    (inner.compile c').popTarget target
  | .slot inner, c => (inner.compile c).popTarget (some 0)
  | .declare name, c => c.modify (·.pushLocalVariable name)
  | .temporary inner, c =>
    (inner.compile (c.modify (·.pushTemporary))).modify (·.popTarget c.fs.vlocals.length)
  | .block inner, c => (inner.compile c).endScope c
  | .foreach container temporary idxname valname body, c =>
    let c' := container.compile c
    let npos := c'.fs.vlocals.length
    let c' := if temporary then c'.modify (·.pushTemporary) else c'
    let c' := c'.modify fun fs =>
      ((fs.pushLocalVariable idxname).pushLocalVariable valname).pushLocalVariable "@ITERATOR@"
    let c' := body.compile c'
    let c' := if temporary then c'.modify (·.popTarget npos) else c'
    c'.endScope c
  | .function parameters body, c =>
    let child := body.compile ⟨.create parameters, c.fs :: c.parents⟩
    match child.parents with
    | fs :: parents => ⟨fs.pushFunction child, parents⟩
    | [] => c

def Items.compile : Items → SQCompiler → SQCompiler
  | .nil, c => c
  | .cons item items, c => items.compile (item.compile c)

end

def compile (script : Items) : SQFunctionProto :=
  (script.compile ⟨.create ["this", "vargv"], []⟩).buildProto

mutual

/-- What is declared and stays visible. -/
def Item.declared : Item → List String
  | .declare name => [name]
  | .identifier _ _ inner | .slot inner | .temporary inner => inner.declared
  | .block _ | .foreach .. | .function .. => []

def Items.declared : Items → List String
  | .nil => []
  | .cons item items => item.declared ++ items.declared

end

mutual

/-- Every function has a parameter, be it `this`, and nothing is declared while a temporary of the
same block is in use. -/
def Item.Orderly : Item → Prop
  | .identifier _ _ inner | .slot inner => inner.Orderly
  | .declare _ => True
  | .temporary inner => inner.Orderly ∧ inner.declared = []
  | .block inner => inner.Orderly
  | .foreach container _ _ _ body => container.Orderly ∧ body.Orderly
  | .function parameters body => parameters ≠ [] ∧ body.Orderly

def Items.Orderly : Items → Prop
  | .nil => True
  | .cons item items => item.Orderly ∧ items.Orderly

end

mutual

/-- The identifier `name` and a function statement put between any two parts of a function body -/
def Item.fill (name : String) : Item → Item
  | .identifier n constant inner => .identifier n constant (inner.fill name)
  | .slot inner => .slot (inner.fill name)
  | .declare n => .declare n
  | .temporary inner => .temporary (inner.fill name)
  | .block inner => .block (inner.fill name)
  | .foreach container temporary idxname valname body =>
    .foreach (container.fill name) temporary idxname valname (body.fill name)
  | .function parameters body => .function parameters (body.fill name)

def Items.fill (name : String) : Items → Items
  | .nil => .cons (.identifier name false .nil) (.cons (.slot .nil) .nil)
  | .cons item items =>
    .cons (.identifier name false .nil) <| .cons (.slot .nil) <|
      .cons (item.fill name) (items.fill name)

end

end Squirt.Scoping
