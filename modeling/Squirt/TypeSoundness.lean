import Squirt.EqualityOperator
import Squirt.MachineIntegers
import Squirt.SyntaxTrees

/-!
# The types of expressions

The values of expressions of literals and operators, opcode by opcode, against the types that
`CheckTypes` gives to their nodes. A three-way comparison is typed as a boolean and is an integer,
and an operator whose left operand is the literal `null` is typed by the node before it.
-/

namespace Squirt

open MachineIntegers
open VmOp

/-! ## Values -/

/-- What the operators do with the objects that no literal makes -/
structure ObjectOps where
  /-- `SQGenerator::Resume` -/
  resume : SQObject → VmOp (Option SQObject)
  /-- `Clone` of a table, an array or an instance -/
  clone : SQObject → VmOp (Option SQObject)
  /-- `InstanceOf`, by the instance and the class -/
  instanceOf : Store → SQObject → SQObject → Bool

/-- With no such objects -/
def noObjects : ObjectOps where
  resume _ := pure none
  clone _ := pure none
  instanceOf _ _ _ := false

section Model

variable (rt : Runtime) (ops : ObjectOps)

def Literal.toObject : Literal → SQObject
  | null => .null
  | integer i => .integer i
  | float f => .float f
  | string s => .string s
  | bool b => .ofBool b

/-- The cases of `Execute` for the unary operators, none where they throw. The target is the
register of the operand. -/
def UnaryOp.execute (op : UnaryOp) (o : SQObject) : VmOp (Option SQObject) :=
  match op with
  | neg => negOp rt o o
  | not => pure (some (.ofBool (isFalse rt o)))
  | bwnot =>
    match o with
    | .integer i => pure (some (.integer (-i - 1)))
    | o => fail s!"attempt to perform a bitwise op on a {o.typeName}"
  | typeof => typeOf rt o
  | resume =>
    if o.type ≠ 0x400 then
      fail s!"trying to resume a '{o.typeName}',only genenerator can be resumed"
    else ops.resume o
  | clone =>
    if o.type = 0x20 ∨ o.type = 0x8000 ∨ o.type = 0x40 then ops.clone o
    else fail s!"cloning a {o.typeName}"

/-- `i1 op i2` of two `SQInteger`s -/
def BWOp.ofIntegers (op : BWOp) (i1 i2 : BitVec 64) : Option (BitVec 64) :=
  match op with
  | and => some (i1 &&& i2)
  | or => some (i1 ||| i2)
  | xor => some (i1 ^^^ i2)
  | shiftl => shift (i1 <<< ·) i2
  | shiftr => shift i1.sshiftRight i2
  | ushiftr => shift (i1 >>> ·) i2

def bwOp (op : BWOp) (o1 o2 : SQObject) : VmOp (Option SQObject) :=
  match o1, o2 with
  | .integer i1, .integer i2 =>
    integerResult ((op.ofIntegers (.ofInt 64 i1) (.ofInt 64 i2)).map BitVec.toInt)
  | o1, o2 => fail s!"bitwise op between '{o1.typeName}' and '{o2.typeName}'"

def cmpOp (op : CmpOP) (o1 o2 : SQObject) : VmOp (Option SQObject) := do
  match ← objCmp rt o1 o2 with
  | none => pure none
  | some r =>
    match op with
    | .CMP_G => pure (some (.ofBool (r > 0)))
    | .CMP_GE => pure (some (.ofBool (r ≥ 0)))
    | .CMP_L => pure (some (.ofBool (r < 0)))
    | .CMP_LE => pure (some (.ofBool (r ≤ 0)))
    | .CMP_3W => pure (some (.integer r))

/-- What is in the target, which is the register of the first operand -/
def VmOp.ArithResult.target (o1 : SQObject) : ArithResult → Option SQObject
  | .stored dst => some dst
  | .kept => some o1
  | .thrown => none

/-- The cases of `Execute` for the binary operators that evaluate both operands, none where they
throw -/
def BinaryOp.execute (op : BinaryOp) (o1 o2 : SQObject) : VmOp (Option SQObject) :=
  match op with
  | arith op => do pure ((← executeArith rt op o1 o2).target o1)
  | bitw op => bwOp op o1 o2
  | cmp op => cmpOp rt op o1 o2
  | eq => do pure ((← executeEq rt o1 o2).target o1)
  | ne => do pure ((← executeNe rt o1 o2).target o1)
  | in_ => do
    let res ← get rt 1 o2 o1 true DONT_FALL_BACK
    pure (some (.ofBool res.isSome))
  | instanceof =>
    if o2.type ≠ 0x4000 then
      fail s!"cannot apply instanceof between a {o2.typeName} and a {o1.typeName}"
    else do
      let inside ← .read fun s => o1.type = 0x8000 && ops.instanceOf s o1 o2
      pure (some (.ofBool inside))
  | as_ =>
    if o2.type ≠ 0x4000 then
      fail s!"cannot apply instanceof between a {o2.typeName} and a {o1.typeName}"
    else do
      let inside ← .read fun s => o1.type = 0x8000 && ops.instanceOf s o1 o2
      pure (some (if inside then o1 else .null))
  | and | or => pure none

/-- The value of an expression, none with an error -/
def Expr.eval : Expr → VmOp (Option SQObject)
  | literal l => pure (some l.toObject)
  | unary op e => do
    match ← e.eval with
    | none => pure none
    | some o => op.execute rt ops o
  | binary .and l r => do
    match ← l.eval with
    | none => pure none
    | some o => if isFalse rt o then pure (some o) else r.eval
  | binary .or l r => do
    match ← l.eval with
    | none => pure none
    | some o => if isFalse rt o then r.eval else pure (some o)
  | binary op l r => do
    match ← l.eval with
    | none => pure none
    | some o1 =>
      match ← r.eval with
      | none => pure none
      | some o2 => op.execute rt ops o1 o2

/-- The expression can have that value. -/
def Expr.Evaluates (e : Expr) (v : SQObject) : Prop :=
  ∃ s s' events, e.eval rt ops s = .done (some v) s' events

end Model

/-! ## Types -/

/-- A value of that kind -/
def SQMetaType.Holds (t : SQMetaType) (v : SQObject) : Prop :=
  match t with
  | BOOLEAN => ∃ b, v = .bool b
  | CHAR8 | BYTE8 | INT16 | UINT16 | INT32 | UINT32 | INT64 | UINT64 | INT_ANY =>
    ∃ i, v = .integer i
  | FLOAT32 | DOUBLE64 | FLOAT_ANY => ∃ f, v = .float f
  | STRING => ∃ s, v = .string s
  | DYNAMIC | VOID | OBJECT | CLOSURE | NATIVECLOSURE | NATIVEPTR => True

namespace SQMetaType

variable {x y t : SQMetaType} {v : SQObject}

/-- The types between -/
def isFloat (x : SQMetaType) : Bool := FLOAT32 ≤ x ∧ x ≤ DOUBLE64

theorem le_iff : x ≤ y ↔ x.ctorIdx ≤ y.ctorIdx := Iff.rfl

theorem isNumber_iff : x.isNumber ↔ x.isInteger ∨ x.isFloat := by
  cases x <;> decide

theorem isInteger_max (hx : x.isInteger) (hy : y.isInteger) : (x.max y).isInteger := by
  unfold max
  split_ifs with hle
  · exact hx
  · exact hy

private theorem isFloat_max_left (hx : x.isFloat) (hy : y.isNumber) : (x.max y).isFloat := by
  unfold max
  split_ifs with hle
  · exact hx
  · simp only [isNumber, isFloat, decide_eq_true_eq, le_iff] at *
    omega

private theorem isFloat_max_right (hx : x.isNumber) (hy : y.isFloat) : (x.max y).isFloat := by
  unfold max
  split_ifs with hle
  · simp only [isNumber, isFloat, decide_eq_true_eq, le_iff] at *
    omega
  · exact hy

theorem holds_integer (ht : t.isInteger) : t.Holds v ↔ ∃ i, v = .integer i := by
  cases t <;> first | exact Iff.rfl | exact absurd ht (by decide)

theorem holds_float (ht : t.isFloat) : t.Holds v ↔ ∃ f, v = .float f := by
  cases t <;> first | exact Iff.rfl | exact absurd ht (by decide)

end SQMetaType

/-- The node or one under it -/
inductive SQAstNode.Within : SQAstNode → SQAstNode → Prop
  | refl (n : SQAstNode) : Within n n
  | child {m c n : SQAstNode} (hc : c ∈ n.commonchildren) (h : Within m c) : Within m n

/-- Every value of the expression of a node is of the kind of its type. -/
def SQAstNode.Sound (rt : Runtime) (ops : ObjectOps) (n : SQAstNode) : Prop :=
  n.typetag.getMetaType ≠ .DYNAMIC → ∀ e, n.source = some e → ∀ v, e.Evaluates rt ops v →
    n.typetag.getMetaType.Holds v

/-- The forms of an expression that are typed wrong: a three-way comparison, and `&&` or `%` after
the literal `null` -/
def Expr.Mistyped : Expr → Prop
  | binary (.cmp .CMP_3W) _ _ => True
  | binary .and (literal .null) _ => True
  | binary (.arith .mod) (literal .null) _ => True
  | _ => False

/-- No node that is typed and can have a value is of such a form. -/
def SQAstNode.Fair (rt : Runtime) (ops : ObjectOps) (n : SQAstNode) : Prop :=
  n.typetag.getMetaType ≠ .DYNAMIC → ∀ e, n.source = some e → (∃ v, e.Evaluates rt ops v) →
    ¬e.Mistyped

section Results

variable {rt : Runtime} {ops : ObjectOps} {s s' : Store} {o o1 o2 v : SQObject}
  {events : List MetaCall}

theorem not_fail {message : String} :
    (fail message : VmOp (Option SQObject)) s ≠ .done (some v) s' events := nofun

theorem pure_done {α : Type} {a b : α} (h : (pure a : VmOp α) s = .done b s' events) : a = b := by
  cases h
  rfl

/-- An operand that has no metamethods -/
theorem not_negOp {trg : SQObject} (hdelegate : s.hasDelegate o = false)
    (hi : ∀ i, o ≠ .integer i) (hf : ∀ f, o ≠ .float f) :
    negOp rt trg o s ≠ .done (some v) s' events := by
  intro h
  have hnone : delegated s o .unm = none := by rw [delegated, hdelegate]; rfl
  unfold negOp at h
  split at h
  · exact hi _ rfl
  · exact hf _ rfl
  · obtain ⟨res, s₁, events₁, events₂, hres, hrest, -⟩ := Traced.bind_done.mp h
    rw [delegatedMetaMethod_eq, hnone] at hres
    cases hres
    exact not_fail hrest

private theorem negOp_holds {t : SQMetaType} {trg : SQObject} (ho : t.Holds o)
    (h : negOp rt trg o s = .done (some v) s' events) : t.Holds v := by
  have hinteger : (∃ i, o = .integer i) → ∃ i, v = .integer i := by
    rintro ⟨i, rfl⟩
    cases pure_done h
    exact ⟨_, rfl⟩
  have hfloat : (∃ f, o = .float f) → ∃ f, v = .float f := by
    rintro ⟨f, rfl⟩
    cases pure_done h
    exact ⟨_, rfl⟩
  cases t with
  | CHAR8 | BYTE8 | INT16 | UINT16 | INT32 | UINT32 | INT64 | UINT64 | INT_ANY => exact hinteger ho
  | FLOAT32 | DOUBLE64 | FLOAT_ANY => exact hfloat ho
  | BOOLEAN =>
    obtain ⟨b, rfl⟩ := ho
    exact absurd h (not_negOp rfl nofun nofun)
  | STRING =>
    obtain ⟨str, rfl⟩ := ho
    exact absurd h (not_negOp rfl nofun nofun)
  | DYNAMIC | VOID | OBJECT | CLOSURE | NATIVECLOSURE | NATIVEPTR => trivial

private theorem bwnot_holds {t : SQMetaType} (ho : t.Holds o)
    (h : UnaryOp.bwnot.execute rt ops o s = .done (some v) s' events) : t.Holds v := by
  unfold UnaryOp.execute at h
  dsimp only at h
  split at h
  · -- an integer, and so is the value
    cases pure_done h
    cases t with
    | CHAR8 | BYTE8 | INT16 | UINT16 | INT32 | UINT32 | INT64 | UINT64 | INT_ANY => exact ⟨_, rfl⟩
    | FLOAT32 | DOUBLE64 | FLOAT_ANY | BOOLEAN | STRING => obtain ⟨_, ⟨⟩⟩ := ho
    | DYNAMIC | VOID | OBJECT | CLOSURE | NATIVECLOSURE | NATIVEPTR => trivial
  · exact absurd h not_fail

/-- Integers make an integer, also where the target is kept. -/
theorem executeArith_integers {op : ArithOp} {i1 i2 : ℤ} {res : ArithResult}
    (h : executeArith rt op (.integer i1) (.integer i2) s = .done res s' events)
    (hv : res.target (.integer i1) = some v) : ∃ i, v = .integer i := by
  have hintegers : operands rt (.integer i1) (.integer i2) = .integers i1 i2 := rfl
  have hresult {r : Option ℤ} {k : Option SQObject → VmOp ArithResult}
      (hk : ∀ i s, k (some i) s = .done (.stored i) s [])
      (h : (integerResult r >>= k) s = .done res s' events) : ∃ i, v = .integer i := by
    obtain ⟨a, s₁, events₁, events₂, ha, hrest, -⟩ := Traced.bind_done.mp h
    cases r with
    | none => cases ha
    | some i =>
      cases ha
      rw [hk] at hrest
      cases hrest
      exact ⟨i, (Option.some.inj hv).symm⟩
  cases op with
  | add | sub | mul => exact hresult (fun _ _ => rfl) h
  | div =>
    simp only [executeArith, arithNozero, hintegers] at h
    split_ifs at h with hzero
    · obtain ⟨-, s₁, events₁, events₂, -, hrest, -⟩ := Traced.bind_done.mp h
      cases hrest
      cases hv
    · exact hresult (fun _ _ => rfl) h
  | mod =>
    simp only [executeArith, arithOp, hintegers] at h
    split_ifs at h with hzero
    · obtain ⟨a, s₁, events₁, events₂, ha, hrest, -⟩ := Traced.bind_done.mp h
      cases ha
      cases hrest
      cases hv
      exact ⟨i1, rfl⟩
    · exact hresult (fun _ _ => rfl) h

/-- With a float among them numbers make a float. -/
theorem executeArith_floats {op : ArithOp} {f1 f2 : ℤ} {res : ArithResult}
    (hfloats : operands rt o1 o2 = .floats f1 f2)
    (h : executeArith rt op o1 o2 s = .done res s' events)
    (hv : res.target o1 = some v) : ∃ f, v = .float f := by
  have hstored (f : ℤ) (hres : res = .stored (.float f)) : ∃ f, v = .float f := by
    rw [hres] at hv
    exact ⟨f, (Option.some.inj hv).symm⟩
  cases op with
  | add | sub | mul =>
    simp only [executeArith, arith, hfloats] at h
    exact hstored _ (pure_done h).symm
  | div =>
    simp only [executeArith, arithNozero, hfloats] at h
    exact hstored _ (pure_done h).symm
  | mod =>
    simp only [executeArith, arithOp, hfloats] at h
    obtain ⟨a, s₁, events₁, events₂, ha, hrest, -⟩ := Traced.bind_done.mp h
    cases ha
    exact hstored _ (pure_done hrest).symm

private theorem executeArith_holds {lt rt' : SQMetaType} {op : ArithOp} {res : ArithResult}
    (hlt : lt.isNumber) (hrt : rt'.isNumber) (ho1 : lt.Holds o1) (ho2 : rt'.Holds o2)
    (h : executeArith rt op o1 o2 s = .done res s' events) (hv : res.target o1 = some v) :
    (lt.max rt').Holds v := by
  obtain hl | hl := SQMetaType.isNumber_iff.mp hlt
  · obtain ⟨i1, rfl⟩ := (SQMetaType.holds_integer hl).mp ho1
    obtain hr | hr := SQMetaType.isNumber_iff.mp hrt
    · obtain ⟨i2, rfl⟩ := (SQMetaType.holds_integer hr).mp ho2
      exact (SQMetaType.holds_integer (SQMetaType.isInteger_max hl hr)).mpr
        (executeArith_integers h hv)
    · obtain ⟨f2, rfl⟩ := (SQMetaType.holds_float hr).mp ho2
      exact (SQMetaType.holds_float (SQMetaType.isFloat_max_right hlt hr)).mpr
        (executeArith_floats rfl h hv)
  · obtain ⟨f1, rfl⟩ := (SQMetaType.holds_float hl).mp ho1
    refine (SQMetaType.holds_float (SQMetaType.isFloat_max_left hl hrt)).mpr ?_
    obtain hr | hr := SQMetaType.isNumber_iff.mp hrt
    · obtain ⟨i2, rfl⟩ := (SQMetaType.holds_integer hr).mp ho2
      exact executeArith_floats rfl h hv
    · obtain ⟨f2, rfl⟩ := (SQMetaType.holds_float hr).mp ho2
      exact executeArith_floats rfl h hv

private theorem bwOp_holds {op : BWOp} (h : bwOp op o1 o2 s = .done (some v) s' events) :
    ∃ i, v = .integer i := by
  unfold bwOp at h
  split at h
  · rename_i i1 i2
    cases hres : op.ofIntegers (.ofInt 64 i1) (.ofInt 64 i2) with
    | none =>
      rw [hres] at h
      cases h
    | some i =>
      rw [hres] at h
      cases h
      exact ⟨_, rfl⟩
  · exact absurd h not_fail

theorem cmpOp_holds {op : CmpOP} (h : cmpOp rt op o1 o2 s = .done (some v) s' events) :
    if op = .CMP_3W then ∃ i, v = .integer i else ∃ b, v = .bool b := by
  obtain ⟨r, s₁, events₁, events₂, -, hrest, -⟩ := Traced.bind_done.mp h
  cases r with
  | none => cases hrest
  | some r =>
    cases op with
    | CMP_3W =>
      cases hrest
      exact ⟨r, rfl⟩
    | CMP_G | CMP_GE | CMP_L | CMP_LE =>
      cases hrest
      exact ⟨_, rfl⟩

private theorem executeEq_holds
    (h : BinaryOp.eq.execute rt ops o1 o2 s = .done (some v) s' events) :
    ∃ b, v = .bool b := by
  obtain ⟨res, s₁, events₁, events₂, hres, htarget, -⟩ := Traced.bind_done.mp h
  obtain ⟨equal, s₂, _, _, -, hrest, -⟩ := Traced.bind_done.mp hres
  have htarget := pure_done htarget
  cases equal with
  | none =>
    cases hrest
    cases htarget
  | some b =>
    cases hrest
    cases htarget
    exact ⟨_, rfl⟩

private theorem instanceof_holds
    (h : BinaryOp.instanceof.execute rt ops o1 o2 s = .done (some v) s' events) :
    ∃ b, v = .bool b := by
  unfold BinaryOp.execute at h
  dsimp only at h
  split_ifs at h
  · exact absurd h not_fail
  · obtain ⟨inside, s₁, events₁, events₂, -, hrest, -⟩ := Traced.bind_done.mp h
    cases pure_done hrest
    exact ⟨_, rfl⟩

end Results

/-! ## Trees -/

section Trees

variable {single : Bool}

/-- A node that the parser has made of an expression: it has the operands' nodes under it, except
for an operand `null`, and one that lacks a node does not check. -/
inductive SQAstNode.Made (single : Bool) : SQAstNode → Prop
  | constant {l : Literal} {typetag : SQTypeDesc} (h : l.typetag single = some typetag) :
    Made single (.node .Constant typetag .LINE (some (.literal l)) [])
  | unary {op : UnaryOp} {e : Expr} {c : SQAstNode} (hc : c.source = some e) (h : Made single c) :
    Made single (.node .UnaryExpr (.known .DYNAMIC) op.opcode (some (.unary op e)) [c])
  | binary {op : BinaryOp} {l r : Expr} {cl cr : SQAstNode}
    (hl : l ≠ .literal .null → cl.source = some l) (hr : cr.source = some r)
    (hcl : Made single cl) (hcr : Made single cr) :
    Made single (.node .BinaryExpr op.typetag op.opcode (some (.binary op l r)) [cl, cr])
  | refused {n : SQAstNode} (h : n.checkTypes = none) : Made single n

/-- A node that has checked -/
inductive SQAstNode.Typed (single : Bool) : SQAstNode → Prop
  | constant {l : Literal} {typetag : SQTypeDesc} (h : l.typetag single = some typetag) :
    Typed single (.node .Constant typetag .LINE (some (.literal l)) [])
  | unary {op : UnaryOp} {e : Expr} {c : SQAstNode} {typetag : SQTypeDesc}
    (hc : c.source = some e) (h : Typed single c)
    (htag : checkUnary op.opcode (.known .DYNAMIC) [c.typetag.getMetaType] = some typetag) :
    Typed single (.node .UnaryExpr typetag op.opcode (some (.unary op e)) [c])
  | binary {op : BinaryOp} {l r : Expr} {cl cr : SQAstNode} {typetag : SQTypeDesc}
    (hl : l ≠ .literal .null → cl.source = some l) (hr : cr.source = some r)
    (hcl : Typed single cl) (hcr : Typed single cr)
    (htag : checkBinary op.opcode op.typetag [cl.typetag.getMetaType, cr.typetag.getMetaType] =
      some typetag) :
    Typed single (.node .BinaryExpr typetag op.opcode (some (.binary op l r)) [cl, cr])

namespace SQAstNode

variable {n n' : SQAstNode} {type : SQAstNodeType} {typetag : SQTypeDesc} {opcode : SQCompiler.SQOpcode}
  {source : Option Expr} {children children' : List SQAstNode}

theorem checkTypes_eq_some :
    (node type typetag opcode source children).checkTypes = some n' ↔
      ∃ children' typetag', checkChildren children = some children' ∧
        checkNode type opcode typetag (children'.map fun c => c.typetag.getMetaType) =
          some typetag' ∧
        n' = node type typetag' opcode source children' := by
  simp only [checkTypes, Option.bind_eq_bind, Option.bind_eq_some_iff, Option.some.injEq]
  exact ⟨fun ⟨cs, hcs, tag, htag, h⟩ => ⟨cs, tag, hcs, htag, h.symm⟩,
    fun ⟨cs, tag, hcs, htag, h⟩ => ⟨cs, hcs, tag, htag, h.symm⟩⟩

theorem checkChildren_cons {c : SQAstNode} :
    checkChildren (c :: children) = some children' ↔
      ∃ c' cs', c.checkTypes = some c' ∧ checkChildren children = some cs' ∧
        children' = c' :: cs' := by
  simp only [checkChildren, Option.bind_eq_bind, Option.bind_eq_some_iff, Option.some.injEq]
  exact ⟨fun ⟨c', hc, cs, hcs, h⟩ => ⟨c', cs, hc, hcs, h.symm⟩,
    fun ⟨c', cs, hc, hcs, h⟩ => ⟨c', hc, cs, hcs, h.symm⟩⟩

private theorem checkChildren_length (h : checkChildren children = some children') :
    children'.length = children.length := by
  induction children generalizing children' with
  | nil =>
    cases h
    rfl
  | cons c cs ih =>
    obtain ⟨c', cs', -, hcs, rfl⟩ := checkChildren_cons.mp h
    rw [List.length_cons, List.length_cons, ih hcs]

private theorem source_checkTypes (h : n.checkTypes = some n') : n'.source = n.source := by
  cases n
  obtain ⟨children', typetag', -, -, rfl⟩ := checkTypes_eq_some.mp h
  rfl

private theorem checkUnary_length {types : List SQMetaType}
    (h : checkUnary opcode typetag types ≠ none) : types.length = 1 := by
  unfold checkUnary at h
  split at h
  · rfl
  · exact absurd rfl h

private theorem checkBinary_length {types : List SQMetaType}
    (h : checkBinary opcode typetag types ≠ none) : types.length = 2 := by
  unfold checkBinary at h
  split at h
  · rfl
  · exact absurd rfl h

/-- A node with too few operands -/
theorem checkTypes_eq_none {k : ℕ}
    (hnode : ∀ {types : List SQMetaType}, checkNode type opcode typetag types ≠ none →
      types.length = k) (hlen : children.length ≠ k) :
    (node type typetag opcode source children).checkTypes = none := by
  by_contra hne
  obtain ⟨n', hn'⟩ := Option.ne_none_iff_exists'.mp hne
  obtain ⟨children', typetag', hchildren, htag, -⟩ := checkTypes_eq_some.mp hn'
  have hlength := hnode (htag ▸ Option.some_ne_none typetag')
  rw [List.length_map, checkChildren_length hchildren] at hlength
  exact hlen hlength

theorem Made.typed (h : n.Made single) (hcheck : n.checkTypes = some n') : n'.Typed single := by
  induction h generalizing n' with
  | constant h =>
    obtain ⟨children', typetag', ⟨⟩, ⟨⟩, rfl⟩ := checkTypes_eq_some.mp hcheck
    exact .constant h
  | unary hc _ ih =>
    obtain ⟨children', typetag', hchildren, htag, rfl⟩ := checkTypes_eq_some.mp hcheck
    obtain ⟨c', cs', hc', ⟨⟩, rfl⟩ := checkChildren_cons.mp hchildren
    exact .unary ((source_checkTypes hc').trans hc) (ih hc') htag
  | binary hl hr _ _ ihl ihr =>
    obtain ⟨children', typetag', hchildren, htag, rfl⟩ := checkTypes_eq_some.mp hcheck
    obtain ⟨cl', cs', hcl', hcs, rfl⟩ := checkChildren_cons.mp hchildren
    obtain ⟨cr', cs'', hcr', ⟨⟩, rfl⟩ := checkChildren_cons.mp hcs
    exact .binary (fun hne => (source_checkTypes hcl').trans (hl hne))
      ((source_checkTypes hcr').trans hr) (ihl hcl') (ihr hcr') htag
  | refused h => exact absurd (h.symm.trans hcheck) (Option.some_ne_none n').symm

end SQAstNode

/-- `null` leaves the children as they are. Every other expression adds its node to them, or puts
it in the place of the last one. -/
theorem Expr.build_spec {e : Expr} {children children' : List SQAstNode}
    (hmade : ∀ c ∈ children, c.Made single) (h : e.build single children = some children') :
    e = .literal .null ∧ children' = children ∨
      ∃ init n, (init = children ∨ init = children.dropLast) ∧ children' = init ++ [n] ∧
        n.source = some e ∧ n.Made single := by
  induction e generalizing children children' with
  | literal l =>
    unfold build at h
    split at h
    · rename_i hnone
      cases h
      cases l with
      | null => exact .inl ⟨rfl, rfl⟩
      | integer | float | string | bool => cases hnone
    · rename_i typetag htag
      cases h
      exact .inr ⟨_, _, .inl rfl, rfl, rfl, .constant htag⟩
  | unary op e ih =>
    simp only [build, Option.bind_eq_bind, Option.bind_eq_some_iff, Option.some.injEq] at h
    obtain ⟨operand, hoperand, rfl⟩ := h
    refine .inr ⟨_, _, .inl rfl, rfl, rfl, ?_⟩
    obtain ⟨-, rfl⟩ | ⟨init, n, hinit, rfl, hn, hmade'⟩ := ih (by simp) hoperand
    · exact .refused (SQAstNode.checkTypes_eq_none SQAstNode.checkUnary_length (by simp))
    · obtain rfl : init = [] := by simpa using hinit
      exact .unary hn hmade'
  | binary op l r ihl ihr =>
    simp only [build, Option.bind_eq_bind, Option.bind_eq_some_iff, Option.some.injEq] at h
    obtain ⟨children₁, hl, last, hlast, operands, hr, rfl⟩ := h
    obtain ⟨before, rfl⟩ := List.getLast?_eq_some_iff.mp hlast
    have hleft : (before = children ∨ before = children.dropLast) ∧ last.Made single ∧
        (l ≠ .literal .null → last.source = some l) := by
      obtain ⟨rfl, rfl⟩ | ⟨init, n, hinit, heq, hn, hmade'⟩ := ihl hmade hl
      · exact ⟨.inr (by simp), hmade last (by simp), fun hne => absurd rfl hne⟩
      · obtain ⟨rfl, ⟨⟩⟩ := List.append_inj' heq rfl
        exact ⟨hinit, hmade', fun _ => hn⟩
    obtain ⟨hinit, hlastMade, hsource⟩ := hleft
    refine .inr ⟨before, _, hinit, by rw [List.dropLast_concat], rfl, ?_⟩
    have hfew (hlen : operands.length = 1) : (SQAstNode.node .BinaryExpr op.typetag op.opcode
        (some (.binary op l r)) operands).checkTypes = none :=
      SQAstNode.checkTypes_eq_none SQAstNode.checkBinary_length (by omega)
    obtain ⟨-, rfl⟩ | ⟨init, n, rfl | rfl, rfl, hn, hmade'⟩ := ihr (by simpa using hlastMade) hr
    · exact .refused (hfew rfl)
    · exact .binary hsource hn hlastMade hmade'
    · exact .refused (hfew rfl)

private theorem Expr.buildAll_made {es : List Expr} {children : List SQAstNode}
    (h : buildAll single es = some children) : ∀ c ∈ children, c.Made single := by
  have hfold (es : List Expr) (init : List SQAstNode) (hinit : ∀ c ∈ init, c.Made single)
      (h : es.foldlM (fun children e => e.build single children) init = some children) :
      ∀ c ∈ children, c.Made single := by
    induction es generalizing init with
    | nil =>
      cases h
      exact hinit
    | cons e es ih =>
      rw [List.foldlM_cons, Option.bind_eq_bind, Option.bind_eq_some_iff] at h
      obtain ⟨children', hbuild, hrest⟩ := h
      refine ih children' ?_ hrest
      obtain ⟨-, rfl⟩ | ⟨before, n, hbefore, rfl, -, hn⟩ := build_spec hinit hbuild
      · exact hinit
      · intro c hc
        obtain hc | hc := List.mem_append.mp hc
        · obtain rfl | rfl := hbefore
          · exact hinit c hc
          · exact hinit c (List.mem_of_mem_dropLast hc)
        · exact List.mem_singleton.mp hc ▸ hn
  exact hfold es [] (by simp) h

end Trees

/-! ## Soundness -/

section Soundness

variable {rt : Runtime} {ops : ObjectOps} {single : Bool} {e l r : Expr} {v : SQObject}

private theorem Expr.evaluates_unary {op : UnaryOp} (h : (unary op e).Evaluates rt ops v) :
    ∃ o s s' events, e.Evaluates rt ops o ∧ op.execute rt ops o s = .done (some v) s' events := by
  obtain ⟨s, s', events, h⟩ := h
  obtain ⟨o, s₁, events₁, events₂, ho, hrest, -⟩ := Traced.bind_done.mp h
  cases o with
  | none => cases hrest
  | some o => exact ⟨o, s₁, s', events₂, ⟨s, s₁, events₁, ho⟩, hrest⟩

theorem Expr.evaluates_binary {op : BinaryOp} (hand : op ≠ .and) (hor : op ≠ .or)
    (h : (binary op l r).Evaluates rt ops v) :
    ∃ o1 o2 s s' events, l.Evaluates rt ops o1 ∧ r.Evaluates rt ops o2 ∧
      op.execute rt ops o1 o2 s = .done (some v) s' events := by
  obtain ⟨s, s', events, h⟩ := h
  rw [eval] at h
  · obtain ⟨o1, s₁, events₁, _, ho1, hrest, -⟩ := Traced.bind_done.mp h
    cases o1 with
    | none => cases hrest
    | some o1 =>
      obtain ⟨o2, s₂, events₂, _, ho2, hrest, -⟩ := Traced.bind_done.mp hrest
      cases o2 with
      | none => cases hrest
      | some o2 => exact ⟨o1, o2, s₂, s', _, ⟨s, s₁, _, ho1⟩, ⟨s₁, s₂, _, ho2⟩, hrest⟩
  · exact hand
  · exact hor

/-- The value of `&&` is that of the first operand, if it is false, or of the second one. -/
theorem Expr.evaluates_and (h : (binary .and l r).Evaluates rt ops v) :
    l.Evaluates rt ops v ∨
      (∃ o, l.Evaluates rt ops o ∧ isFalse rt o = false) ∧ r.Evaluates rt ops v := by
  obtain ⟨s, s', events, h⟩ := h
  obtain ⟨o, s₁, events₁, events₂, ho, hrest, -⟩ := Traced.bind_done.mp h
  cases o with
  | none => cases hrest
  | some o =>
    dsimp only at hrest
    split_ifs at hrest with hfalse
    · cases pure_done hrest
      exact .inl ⟨s, s₁, events₁, ho⟩
    · exact .inr ⟨⟨o, ⟨s, s₁, events₁, ho⟩, Bool.eq_false_iff.mpr hfalse⟩, s₁, s', events₂, hrest⟩

/-- That of `||` is that of the first one, if it is not false, or of the second one. -/
theorem Expr.evaluates_or (h : (binary .or l r).Evaluates rt ops v) :
    l.Evaluates rt ops v ∧ isFalse rt v = false ∨ r.Evaluates rt ops v := by
  obtain ⟨s, s', events, h⟩ := h
  obtain ⟨o, s₁, events₁, events₂, ho, hrest, -⟩ := Traced.bind_done.mp h
  cases o with
  | none => cases hrest
  | some o =>
    dsimp only at hrest
    split_ifs at hrest with hfalse
    · exact .inr ⟨s₁, s', events₂, hrest⟩
    · cases pure_done hrest
      exact .inl ⟨⟨s, s₁, events₁, ho⟩, Bool.eq_false_iff.mpr hfalse⟩

theorem Expr.evaluates_literal {l : Literal} (h : (literal l).Evaluates rt ops v) :
    v = l.toObject := by
  obtain ⟨s, s', events, h⟩ := h
  cases pure_done h
  rfl

/-- Arithmetic on null and what is not a string: only `%` goes on, and keeps the null. -/
theorem executeArith_null {op : ArithOp} {o2 : SQObject} {s s' : Store} {events : List MetaCall}
    {res : ArithResult} (ho2 : op = .add → o2.type ≠ 0x10)
    (h : executeArith rt op .null o2 s = .done res s' events) :
    res = if op = .mod then .kept else .thrown := by
  have hothers : operands rt .null o2 = .others := rfl
  have hfail : arithOp rt op .null o2 = arithMetaMethod rt op .null o2 := by
    rw [arithOp, hothers]
    exact if_neg fun hstring => hstring.2.elim (by decide) (ho2 hstring.1)
  have hrun {k : Option SQObject → VmOp ArithResult} {res' : ArithResult}
      (hk : ∀ s, k none s = .done res' s [])
      (h : (arithOp rt op .null o2 >>= k) s = .done res s' events) : res = res' := by
    rw [hfail] at h
    obtain ⟨a, s₁, events₁, events₂, ha, hrest, -⟩ := Traced.bind_done.mp h
    obtain ⟨closure, s₂, _, _, hclosure, hfails, -⟩ := Traced.bind_done.mp ha
    rw [delegatedMetaMethod_eq] at hclosure
    cases hclosure
    cases hfails
    rw [hk] at hrest
    cases hrest
    rfl
  cases op with
  | add | sub | mul =>
    simp only [executeArith, arith, hothers] at h
    exact hrun (fun _ => rfl) h
  | div =>
    simp only [executeArith, arithNozero, hothers] at h
    exact hrun (fun _ => rfl) h
  | mod =>
    simp only [executeArith] at h
    exact hrun (fun _ => rfl) h

namespace SQAstNode

variable {n c cl cr : SQAstNode} {typetag : SQTypeDesc}

/-- A value of the expression of a sound node -/
theorem Sound.holds (h : c.Sound rt ops) (hc : c.source = some e) (hv : e.Evaluates rt ops v)
    (htag : c.typetag.getMetaType ≠ .DYNAMIC) : c.typetag.getMetaType.Holds v :=
  h htag e hc v hv

private theorem sound_unary {op : UnaryOp} (hc : c.source = some e) (h : c.Sound rt ops)
    (htag : checkUnary op.opcode (.known .DYNAMIC) [c.typetag.getMetaType] = some typetag) :
    (node .UnaryExpr typetag op.opcode (some (.unary op e)) [c]).Sound rt ops := by
  intro htyped e' he' v hv
  obtain rfl := Option.some.inj he'
  obtain ⟨o, s, s', events, ho, hexec⟩ := Expr.evaluates_unary hv
  cases op with
  | neg =>
    cases htag
    exact negOp_holds (h.holds hc ho htyped) hexec
  | bwnot =>
    cases htag
    exact bwnot_holds (h.holds hc ho htyped) hexec
  | not =>
    cases htag
    cases pure_done hexec
    exact ⟨_, rfl⟩
  | typeof | resume | clone =>
    cases htag
    exact absurd rfl htyped

/-- The operands of an arithmetic or a bitwise operator that has a type -/
theorem checkBinary_numbers {types : SQMetaType → Bool} {lt rt' : SQMetaType}
    (h : (if types lt && types rt' then some (.known (lt.max rt'))
      else if lt = .DYNAMIC || rt' = .DYNAMIC then some (.known .DYNAMIC) else none) =
        some typetag) (htyped : typetag.getMetaType ≠ .DYNAMIC) :
    types lt ∧ types rt' ∧ typetag = .known (lt.max rt') := by
  split_ifs at h with hboth
  · obtain ⟨hl, hr⟩ := Bool.and_eq_true_iff.mp hboth
    exact ⟨hl, hr, (Option.some.inj h).symm⟩
  · exact absurd (Option.some.inj h ▸ rfl) htyped

theorem checkBinary_booleans {lt rt' : SQMetaType}
    (h : (if lt ≠ .BOOLEAN || rt' ≠ .BOOLEAN then none else some (.known .BOOLEAN)) =
      some typetag) : lt = .BOOLEAN ∧ rt' = .BOOLEAN ∧ typetag = .known .BOOLEAN := by
  split_ifs at h with hne
  simp only [ne_eq, decide_not, Bool.or_eq_true, Bool.not_eq_eq_eq_not, Bool.not_true,
    decide_eq_false_iff_not, not_or, not_not] at hne
  exact ⟨hne.1, hne.2, (Option.some.inj h).symm⟩

/-- null is of no type of numbers. -/
theorem not_number_null {lt rt' : SQMetaType} (hlt : lt.isNumber) (hrt : rt'.isNumber) :
    ¬(lt.max rt').Holds .null := by
  have hmax : (lt.max rt').isNumber := by
    unfold SQMetaType.max
    split_ifs
    · exact hlt
    · exact hrt
  intro hholds
  obtain hint | hfloat := SQMetaType.isNumber_iff.mp hmax
  · obtain ⟨i, ⟨⟩⟩ := (SQMetaType.holds_integer hint).mp hholds
  · obtain ⟨f, ⟨⟩⟩ := (SQMetaType.holds_float hfloat).mp hholds

private theorem literal_holds {l : Literal} (h : l.typetag single = some typetag) :
    typetag.getMetaType.Holds l.toObject := by
  cases l with
  | null => cases h
  | integer i =>
    cases h
    unfold SQTypeDesc.getMetaType
    split_ifs
    · exact ⟨i, rfl⟩
    · exact ⟨i, rfl⟩
  | float f =>
    cases h
    unfold SQTypeDesc.getMetaType
    split_ifs
    · exact ⟨f, rfl⟩
    · exact ⟨f, rfl⟩
  | string s =>
    cases h
    exact ⟨s, rfl⟩
  | bool b =>
    cases h
    exact ⟨_, rfl⟩

private theorem isNumber_ne_dynamic {t : SQMetaType} (h : t.isNumber) : t ≠ .DYNAMIC := by
  rintro rfl
  cases h

private theorem sound_arith {op : ArithOp} (hl : l ≠ .literal .null → cl.source = some l)
    (hr : cr.source = some r) (hcl : cl.Sound rt ops) (hcr : cr.Sound rt ops)
    (htag : checkBinary (BinaryOp.arith op).opcode (.known .DYNAMIC)
      [cl.typetag.getMetaType, cr.typetag.getMetaType] = some typetag)
    (hfair : op = .mod → l ≠ .literal .null) (htyped : typetag.getMetaType ≠ .DYNAMIC)
    (hv : (Expr.binary (.arith op) l r).Evaluates rt ops v) : typetag.getMetaType.Holds v := by
  have hand : BinaryOp.arith op ≠ .and := nofun
  obtain ⟨o1, o2, s, s', events, ho1, ho2, hexec⟩ := Expr.evaluates_binary hand nofun hv
  obtain ⟨res, s₁, events₁, events₂, hres, htarget, -⟩ := Traced.bind_done.mp hexec
  have hnumbers : cl.typetag.getMetaType.isNumber ∧ cr.typetag.getMetaType.isNumber ∧
      typetag = .known (cl.typetag.getMetaType.max cr.typetag.getMetaType) := by
    cases op <;> exact checkBinary_numbers htag htyped
  obtain ⟨hlt, hrt, rfl⟩ := hnumbers
  have hright := hcr.holds hr ho2 (isNumber_ne_dynamic hrt)
  by_cases hnull : l = .literal .null
  · obtain rfl : o1 = .null := Expr.evaluates_literal (hnull ▸ ho1)
    have hstring : o2.type ≠ 0x10 := by
      obtain hint | hfloat := SQMetaType.isNumber_iff.mp hrt
      · obtain ⟨i, rfl⟩ := (SQMetaType.holds_integer hint).mp hright
        exact show (0x2 : ℕ) ≠ 0x10 by decide
      · obtain ⟨f, rfl⟩ := (SQMetaType.holds_float hfloat).mp hright
        exact show (0x4 : ℕ) ≠ 0x10 by decide
    rw [executeArith_null (fun _ => hstring) hres, if_neg fun hmod => hfair hmod hnull] at htarget
    cases htarget
  · exact executeArith_holds hlt hrt (hcl.holds (hl hnull) ho1 (isNumber_ne_dynamic hlt)) hright
      hres (pure_done htarget)

private theorem sound_binary {op : BinaryOp} (hl : l ≠ .literal .null → cl.source = some l)
    (hr : cr.source = some r) (hcl : cl.Sound rt ops) (hcr : cr.Sound rt ops)
    (htag : checkBinary op.opcode op.typetag [cl.typetag.getMetaType, cr.typetag.getMetaType] =
      some typetag)
    (hfair : (node .BinaryExpr typetag op.opcode (some (.binary op l r)) [cl, cr]).Fair rt ops) :
    (node .BinaryExpr typetag op.opcode (some (.binary op l r)) [cl, cr]).Sound rt ops := by
  intro htyped e' he' v hv
  obtain rfl := Option.some.inj he'
  have hform := hfair htyped _ rfl ⟨v, hv⟩
  cases op with
  | arith op =>
    refine sound_arith hl hr hcl hcr htag ?_ htyped hv
    rintro rfl rfl
    exact hform trivial
  | bitw op =>
    have hand : BinaryOp.bitw op ≠ .and := nofun
    obtain ⟨o1, o2, s, s', events, -, -, hexec⟩ := Expr.evaluates_binary hand nofun hv
    obtain ⟨hlt, hrt, rfl⟩ := checkBinary_numbers htag htyped
    exact (SQMetaType.holds_integer (SQMetaType.isInteger_max hlt hrt)).mpr (bwOp_holds hexec)
  | cmp op =>
    have hand : BinaryOp.cmp op ≠ .and := nofun
    obtain ⟨o1, o2, s, s', events, -, -, hexec⟩ := Expr.evaluates_binary hand nofun hv
    cases htag
    have hbool := cmpOp_holds hexec
    split_ifs at hbool with hthree
    · cases hthree
      exact absurd trivial hform
    · exact hbool
  | eq =>
    have hand : BinaryOp.eq ≠ .and := nofun
    obtain ⟨o1, o2, s, s', events, -, -, hexec⟩ := Expr.evaluates_binary hand nofun hv
    cases htag
    exact executeEq_holds hexec
  | in_ =>
    have hand : BinaryOp.in_ ≠ .and := nofun
    obtain ⟨o1, o2, s, s', events, -, -, hexec⟩ := Expr.evaluates_binary hand nofun hv
    cases htag
    obtain ⟨res, s₁, events₁, events₂, -, hrest, -⟩ := Traced.bind_done.mp hexec
    cases pure_done hrest
    exact ⟨_, rfl⟩
  | instanceof =>
    have hand : BinaryOp.instanceof ≠ .and := nofun
    obtain ⟨o1, o2, s, s', events, -, -, hexec⟩ := Expr.evaluates_binary hand nofun hv
    cases htag
    exact instanceof_holds hexec
  | ne | as_ =>
    cases htag
    exact absurd rfl htyped
  | and =>
    obtain ⟨hlt, hrt, rfl⟩ := checkBinary_booleans htag
    obtain hval | ⟨-, hval⟩ := Expr.evaluates_and hv
    · have hnull : l ≠ .literal .null := by
        rintro rfl
        exact hform trivial
      exact hlt ▸ hcl.holds (hl hnull) hval (hlt ▸ nofun)
    · exact hrt ▸ hcr.holds hr hval (hrt ▸ nofun)
  | or =>
    obtain ⟨hlt, hrt, rfl⟩ := checkBinary_booleans htag
    obtain ⟨hval, hfalse⟩ | hval := Expr.evaluates_or hv
    · have hnull : l ≠ .literal .null := by
        rintro rfl
        rw [Expr.evaluates_literal hval] at hfalse
        cases hfalse
      exact hlt ▸ hcl.holds (hl hnull) hval (hlt ▸ nofun)
    · exact hrt ▸ hcr.holds hr hval (hrt ▸ nofun)

theorem Typed.sound (h : n.Typed single) (hfair : ∀ m, Within m n → m.Fair rt ops) :
    ∀ m, Within m n → m.Sound rt ops := by
  induction h with
  | @constant l typetag htag =>
    rintro m (⟨⟩ | ⟨hc, -⟩)
    · rintro - e he v hv
      obtain rfl := Option.some.inj he
      rw [Expr.evaluates_literal hv]
      exact literal_holds htag
    · cases hc
  | unary hc _ htag ih =>
    have hsub := ih fun m hm => hfair m (.child (List.mem_singleton_self _) hm)
    rintro m (⟨⟩ | ⟨hc', hm⟩)
    · exact sound_unary hc (hsub _ (.refl _)) htag
    · exact hsub m (List.mem_singleton.mp hc' ▸ hm)
  | @binary op l r cl cr typetag hl hr _ _ htag ihl ihr =>
    have hleft := ihl fun m hm => hfair m (.child List.mem_cons_self hm)
    have hright := ihr fun m hm => hfair m (.child (List.mem_cons_of_mem _ List.mem_cons_self) hm)
    rintro m (⟨⟩ | ⟨hc', hm⟩)
    · exact sound_binary hl hr (hleft _ (.refl _)) (hright _ (.refl _)) htag (hfair _ (.refl _))
    · obtain rfl | hc' := List.mem_cons.mp hc'
      · exact hleft m hm
      · exact hright m (List.mem_singleton.mp hc' ▸ hm)

theorem Typed.within {m : SQAstNode} (h : n.Typed single) (hm : Within m n) : m.Typed single := by
  induction hm with
  | refl => exact h
  | child hc _ ih =>
    cases h with
    | constant => cases hc
    | unary _ hsub _ => exact ih (List.mem_singleton.mp hc ▸ hsub)
    | binary _ _ hcl hcr _ =>
      obtain rfl | hc := List.mem_cons.mp hc
      · exact ih hcl
      · exact ih (List.mem_singleton.mp hc ▸ hcr)

/-- The forms that are typed wrong have values of another kind. -/
theorem Typed.fair (h : n.Typed single) (hsound : n.Sound rt ops) : n.Fair rt ops := by
  rintro htyped e he ⟨v, hv⟩ hform
  have hholds := hsound htyped e he v hv
  cases h with
  | constant | unary =>
    obtain rfl := Option.some.inj he
    cases hform
  | @binary op l r cl cr typetag hl hr _ _ htag =>
    obtain rfl := Option.some.inj he
    unfold Expr.Mistyped at hform
    split at hform
    · -- a three-way comparison
      rename_i heq
      obtain ⟨rfl, rfl, rfl⟩ := Expr.binary.inj heq
      have hand : BinaryOp.cmp .CMP_3W ≠ .and := nofun
      obtain ⟨o1, o2, s, s', events, -, -, hexec⟩ := Expr.evaluates_binary hand nofun hv
      have hcmp : cmpOp rt .CMP_3W o1 o2 s = .done (some v) s' events := hexec
      obtain ⟨i, rfl⟩ := (if_pos rfl).mp (cmpOp_holds hcmp)
      cases htag
      obtain ⟨b, ⟨⟩⟩ := hholds
    · -- null before `&&`
      rename_i heq
      obtain ⟨rfl, rfl, rfl⟩ := Expr.binary.inj heq
      obtain ⟨-, -, rfl⟩ := checkBinary_booleans htag
      obtain hval | ⟨⟨o, ho, hfalse⟩, -⟩ := Expr.evaluates_and hv
      · rw [Expr.evaluates_literal hval] at hholds
        obtain ⟨b, ⟨⟩⟩ := hholds
      · rw [Expr.evaluates_literal ho] at hfalse
        cases hfalse
    · -- null before `%`
      rename_i heq
      obtain ⟨rfl, rfl, rfl⟩ := Expr.binary.inj heq
      have hand : BinaryOp.arith .mod ≠ .and := nofun
      obtain ⟨o1, o2, s, s', events, ho1, -, hexec⟩ := Expr.evaluates_binary hand nofun hv
      obtain rfl := Expr.evaluates_literal ho1
      obtain ⟨res, s₁, events₁, events₂, hres, htarget, -⟩ := Traced.bind_done.mp hexec
      have hadd : ArithOp.mod = .add → o2.type ≠ 0x10 := nofun
      obtain rfl : res = .kept := executeArith_null hadd hres
      cases pure_done htarget
      obtain ⟨hlt, hrt, rfl⟩ := checkBinary_numbers htag htyped
      exact not_number_null hlt hrt hholds
    · exact hform

end SQAstNode

end Soundness

/-- For a document of expressions of literals and operators, the types that `CheckTypes` gives to
the nodes of an expression are those of its values, if and only if no typed node that has a value
is for a three-way comparison or for `&&` or `%` after the literal `null`. -/
theorem sound_iff_fair (rt : Runtime) (ops : ObjectOps) (single : Bool) (es : List Expr)
    (children : List SQAstNode) (hbuild : Expr.buildAll single es = some children) (n : SQAstNode)
    (hn : n ∈ children) (n' : SQAstNode) (hcheck : n.checkTypes = some n') :
    (∀ m, SQAstNode.Within m n' → m.Sound rt ops) ↔
      ∀ m, SQAstNode.Within m n' → m.Fair rt ops := by
  have htyped := (Expr.buildAll_made hbuild n hn).typed hcheck
  exact ⟨fun h m hm => (htyped.within hm).fair (h m hm), htyped.sound⟩

/-- `!true` -/
theorem sound_iff_fair_not :
    let e : Expr := .literal (.bool true)
    let c : SQAstNode := .node .Constant (.known .BOOLEAN) .LINE (some e) []
    let n : SQAstNode := .node .UnaryExpr (.known .DYNAMIC) .NOT (some (.unary .not e)) [c]
    let n' : SQAstNode := .node .UnaryExpr (.known .BOOLEAN) .NOT (some (.unary .not e)) [c]
    Expr.buildAll true [.unary .not e] = some [n] ∧ n.checkTypes = some n' ∧
      ((∀ m, SQAstNode.Within m n' → m.Sound nullRuntime noObjects) ↔
        ∀ m, SQAstNode.Within m n' → m.Fair nullRuntime noObjects) := by
  intro e c n n'
  exact ⟨rfl, rfl, sound_iff_fair nullRuntime noObjects true [.unary .not e] [n] rfl n
    (List.mem_singleton_self n) n' rfl⟩

/-- `1 <=> 2` has the type of a boolean and the value -1. -/
theorem compare_not_sound :
    let e : Expr := .binary (.cmp .CMP_3W) (.literal (.integer 1)) (.literal (.integer 2))
    ∃ n n', Expr.buildAll true [e] = some [n] ∧ n.checkTypes = some n' ∧
      ¬n'.Sound nullRuntime noObjects := by
  refine ⟨_, _, rfl, rfl, fun h => ?_⟩
  obtain ⟨b, ⟨⟩⟩ := h nofun _ rfl (.integer (-1)) ⟨emptyStore, emptyStore, [], rfl⟩

end Squirt
