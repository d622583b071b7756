import Squirt.CodeEmission
import Squirt.ScalarOrder

/-!
# Syntax trees

The nodes that the compiler makes beside the code, and `CheckTypes` of the static analyser. The
nodes of an expression of literals and operators are built as the parser builds them, where the
literal `null` makes no node.
-/

namespace Squirt

open SQCompiler (SQOpcode)

/-- In the order of the enumeration -/
inductive SQMetaType
  | DYNAMIC | VOID | BOOLEAN | CHAR8 | BYTE8 | INT16 | UINT16 | INT32 | UINT32 | INT64 | UINT64
  | FLOAT32 | DOUBLE64 | STRING | OBJECT | CLOSURE | NATIVECLOSURE | NATIVEPTR | INT_ANY | FLOAT_ANY
  deriving DecidableEq

namespace SQMetaType

instance : LE SQMetaType := ⟨fun x y => x.ctorIdx ≤ y.ctorIdx⟩

instance (x y : SQMetaType) : Decidable (x ≤ y) := inferInstanceAs (Decidable (x.ctorIdx ≤ y.ctorIdx))

/-- `_metatypeisnumber` -/
def isNumber (x : SQMetaType) : Bool := CHAR8 ≤ x ∧ x ≤ DOUBLE64

/-- `_metatypeisinteger` -/
def isInteger (x : SQMetaType) : Bool := CHAR8 ≤ x ∧ x ≤ UINT64

/-- `std::max<SQMetaType>` -/
def max (x y : SQMetaType) : SQMetaType := if y ≤ x then x else y

end SQMetaType

/-- `SQTypeDesc`, which nothing resolves -/
inductive SQTypeDesc
  | known (metaType : SQMetaType)
  | unresolved (typeName : String)
  deriving DecidableEq

def SQTypeDesc.getMetaType : SQTypeDesc → SQMetaType
  | known metaType => metaType
  | unresolved _ => .OBJECT

/-- `SQAstNodeType`, with the `_identifier` of the nodes that are looked at for it -/
inductive SQAstNodeType
  | NODE
  | Document (identifier : String)
  | Using
  | Namespace (identifier : String)
  | Table
  | Class (identifier : String)
  | CodeBlock | Constant | Expr | UnaryExpr | BinaryExpr | AssignmentExpr | CondEvalExpr | Var
  | Statement | DeclVariable | DeclMember | DeclLocal | DeclFunctionParam | FunctionDef | Call
  | If | While | DoWhile | For | Foreach | Switch | ReturnYield | Try | Throw
  deriving DecidableEq

/-! ## Expressions of literals and operators -/

inductive Literal
  | null
  | integer (i : ℤ)
  | float (f : ℤ)
  | string (s : String)
  | bool (b : Bool)
  deriving DecidableEq

/-- The operators of `UnaryOP` -/
inductive UnaryOp
  | neg | not | bwnot | typeof | resume | clone
  deriving DecidableEq

def UnaryOp.opcode : UnaryOp → SQOpcode
  | neg => .NEG
  | not => .NOT
  | bwnot => .BWNOT
  | typeof => .TYPEOF
  | resume => .RESUME
  | clone => .CLONE

/-- `BW_AND` and so on -/
inductive BWOp
  | and | or | xor | shiftl | shiftr | ushiftr
  deriving DecidableEq

inductive BinaryOp
  | arith (op : VmOp.ArithOp)
  | bitw (op : BWOp)
  | cmp (op : CmpOP)
  | eq | ne | in_ | instanceof | as_ | and | or
  deriving DecidableEq

namespace BinaryOp

def opcode : BinaryOp → SQOpcode
  | arith .add => .ADD
  | arith .sub => .SUB
  | arith .mul => .MUL
  | arith .div => .DIV
  | arith .mod => .MOD
  | bitw _ => .BITW
  | cmp _ => .CMP
  | eq => .EQ
  | ne => .NE
  | in_ => .EXISTS
  | instanceof => .INSTANCEOF
  | as_ => .DYNAMICCAST
  | and => .AND
  | or => .OR

/-- What `BIN_EXP`, `LogicalOrExp` and `LogicalAndExp` leave in `_typetag` -/
def typetag : BinaryOp → SQTypeDesc
  | bitw _ => .known .INT_ANY
  | cmp _ | and => .known .BOOLEAN
  | _ => .known .DYNAMIC

end BinaryOp

inductive Expr
  | literal (l : Literal)
  | unary (op : UnaryOp) (e : Expr)
  | binary (op : BinaryOp) (l r : Expr)
  deriving DecidableEq

/-! ## Nodes -/

/-- `opcode` is whatever the memory holds in a node that sets none. `source` is not in the program:
the expression that the node is made for, if it is one of literals and operators. -/
inductive SQAstNode
  | node (type : SQAstNodeType) (typetag : SQTypeDesc) (opcode : SQOpcode)
      (source : Option Expr) (commonchildren : List SQAstNode)

namespace SQAstNode

def type : SQAstNode → SQAstNodeType
  | node type _ _ _ _ => type

def typetag : SQAstNode → SQTypeDesc
  | node _ typetag _ _ _ => typetag

def source : SQAstNode → Option Expr
  | node _ _ _ source _ => source

def commonchildren : SQAstNode → List SQAstNode
  | node _ _ _ _ commonchildren => commonchildren

/-- `SQAstNode_UnaryExpr::CheckTypes` after the children -/
def checkUnary (opcode : SQOpcode) (typetag : SQTypeDesc) : List SQMetaType → Option SQTypeDesc
  | [lt] =>
    match opcode with
    | .NEG | .BWNOT => some (.known lt)
    | .NOT => some (.known .BOOLEAN)
    | _ => some typetag
  | _ => none

/-- `SQAstNode_BinaryExpr::CheckTypes` after the children -/
def checkBinary (opcode : SQOpcode) (typetag : SQTypeDesc) : List SQMetaType → Option SQTypeDesc
  | [lt, rt] =>
    match opcode with
    | .ADD | .SUB | .MUL | .DIV | .MOD =>
      if lt.isNumber && rt.isNumber then some (.known (lt.max rt))
      else if lt = .DYNAMIC || rt = .DYNAMIC then some (.known .DYNAMIC)
      else none
    | .BITW =>
      if lt.isInteger && rt.isInteger then some (.known (lt.max rt))
      else if lt = .DYNAMIC || rt = .DYNAMIC then some (.known .DYNAMIC)
      else none
    | .CMP | .EQ => some (.known .BOOLEAN)
    | .OR | .AND => if lt ≠ .BOOLEAN || rt ≠ .BOOLEAN then none else some (.known .BOOLEAN)
    | .EXISTS | .INSTANCEOF => some (.known .BOOLEAN)
    | _ => some typetag
  | _ => none

/-- The type of a node from those of its children; an assignment is a binary expression. -/
def checkNode (type : SQAstNodeType) (opcode : SQOpcode) (typetag : SQTypeDesc)
    (types : List SQMetaType) : Option SQTypeDesc :=
  match type with
  | .UnaryExpr => checkUnary opcode typetag types
  | .BinaryExpr | .AssignmentExpr => checkBinary opcode typetag types
  | _ => some typetag

mutual

/-- `CheckTypes`: the tree with its types, none for false -/
def checkTypes : SQAstNode → Option SQAstNode
  | node type typetag opcode source children => do
    let children ← checkChildren children
    let typetag ← checkNode type opcode typetag (children.map fun c => c.typetag.getMetaType)
    some (node type typetag opcode source children)

/-- `SQAstNode::CheckTypes` -/
def checkChildren : List SQAstNode → Option (List SQAstNode)
  | [] => some []
  | c :: cs => do
    let c ← checkTypes c
    let cs ← checkChildren cs
    some (c :: cs)

end

end SQAstNode

/-! ## Making the nodes -/

/-- The `_typetag` of a constant, by `Factor`, `EmitLoadConstInt` and `EmitLoadConstFloat`; floats
are of single or of double precision. There is no constant for `null`. -/
def Literal.typetag (single : Bool) : Literal → Option SQTypeDesc
  | null => none
  | integer i => some (.known (if 0 ≤ i ∧ i < 2 ^ 32 then .INT32 else .INT64))
  | float _ => some (.known (if single then .FLOAT32 else .DOUBLE64))
  | string _ => some (.known .STRING)
  | bool _ => some (.known .BOOLEAN)

namespace Expr

variable (single : Bool)

/-- What an expression makes of the children of the current node. A binary operator takes the last
one for its left operand, whatever it was made for; with none to take, its node has no parent and
does not get into the tree. -/
def build : Expr → List SQAstNode → Option (List SQAstNode)
  | literal l, children =>
    match l.typetag single with
    | none => some children
    | some typetag => some (children ++ [.node .Constant typetag .LINE (some (literal l)) []])
  | unary op e, children => do
    let operand ← e.build []
    some (children ++
      [.node .UnaryExpr (.known .DYNAMIC) op.opcode (some (unary op e)) operand])
  | binary op l r, children => do
    let children ← l.build children
    -- `BEGIN_AST_NODE_PREFIX`
    let last ← children.getLast?
    let operands ← r.build [last]
    some (children.dropLast ++
      [.node .BinaryExpr op.typetag op.opcode (some (binary op l r)) operands])

/-- The nodes of expressions that are statements of a document -/
def buildAll (es : List Expr) : Option (List SQAstNode) :=
  es.foldlM (fun children e => e.build single children) []

end Expr

end Squirt
