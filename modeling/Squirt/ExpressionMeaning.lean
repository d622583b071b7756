import Squirt.ExpressionCode

/-!
# What expressions mean

An expression has a value, or it raises an error. A local variable as an operand is read when the
operator is at work: in `x + f()` it has the value that `f` leaves it with.
-/

namespace Squirt.SQCompiler

namespace Expression

/-- The variable whose register the value of the expression is in, if there is one -/
def localVar : Expression → Option ℕ
  | var pos => some pos
  | assign pos _ => some pos
  | compound _ pos _ => some pos
  | inc _ post pos => if post then none else some pos
  | comma _ b => b.localVar
  | _ => none

/-- Is it the register of `this`? -/
def isThis (e : Expression) : Bool := e.localVar = some 0

end Expression

section Evaluation

variable {V E G : Type} (ops : Operations V E G)

/-- The operand of an operator: `v`, or what the variable holds now -/
def Expression.operand (e : Expression) (v : V) (w : World V G) : V := e.localVar.elim v w.1

def Leaf.eval (w : World V G) : Leaf → Except (E × World V G) (V × World V G)
  | literal k => .ok (ops.literal k, w)
  | integer n => .ok (ops.integer n, w)
  | float bits => .ok (ops.float bits, w)
  | bool b => .ok (ops.bool b, w)
  | null => .ok (ops.null, w)
  | root => ops.apply .loadRoot [] w
  | base => ops.apply .getBase [] w
  | function f => ops.apply (.closure f) [] w
  | outer pos => ops.apply (.getOuter pos) [] w

/-- `pos = v` -/
def World.assign (w : World V G) (pos : ℕ) (v : V) : World V G :=
  (Function.update w.1 pos v, w.2)

mutual

/-- The value of an expression, and the world after it -/
@[simp]
def Expression.eval : Expression → World V G → Except (E × World V G) (V × World V G)
  | .leaf l, w => l.eval ops w
  | .var pos, w => .ok (w.1 pos, w)
  | .member o k, w => do
    let (vo, w) ← o.eval w
    let (vk, w) ← k.eval w
    ops.apply (.get o.isThis) [o.operand vo w, k.operand vk w] w
  | .unary op e, w => do
    let (v, w) ← e.eval w
    ops.apply (.unary op) [e.operand v w] w
  | .binary op a b, w => do
    let (va, w) ← a.eval w
    let (vb, w) ← b.eval w
    ops.apply (.binary op) [a.operand va w, b.operand vb w] w
  | .and a b, w => do
    let (va, w) ← a.eval w
    if ops.isFalse (a.operand va w) then return (a.operand va w, w)
    let (vb, w) ← b.eval w
    return (b.operand vb w, w)
  | .or a b, w => do
    let (va, w) ← a.eval w
    if ops.isFalse (a.operand va w) then
      let (vb, w) ← b.eval w
      return (b.operand vb w, w)
    else return (a.operand va w, w)
  | .conditional c a b, w => do
    let (vc, w) ← c.eval w
    if ops.isFalse (c.operand vc w) then
      let (vb, w) ← b.eval w
      return (b.operand vb w, w)
    else
      let (va, w) ← a.eval w
      return (a.operand va w, w)
  | .comma a b, w => do
    let (_, w) ← a.eval w
    b.eval w
  | .assign pos e, w => do
    let (v, w) ← e.eval w
    return (e.operand v w, World.assign w pos (e.operand v w))
  | .assignOuter pos e, w => do
    let (v, w) ← e.eval w
    let (_, w) ← ops.apply (.setOuter pos) [e.operand v w] w
    return (e.operand v w, w)
  | .assignMember o k e, w => do
    let (vo, w) ← o.eval w
    let (vk, w) ← k.eval w
    let (v, w) ← e.eval w
    let (_, w) ← ops.apply (.set o.isThis) [o.operand vo w, k.operand vk w, e.operand v w] w
    return (e.operand v w, w)
  | .newSlot o k e, w => do
    let (vo, w) ← o.eval w
    let (vk, w) ← k.eval w
    let (v, w) ← e.eval w
    let (_, w) ← ops.apply .newSlot [o.operand vo w, k.operand vk w, e.operand v w] w
    return (e.operand v w, w)
  | .compound op pos e, w => do
    let (v, w) ← e.eval w
    let (r, w) ← ops.apply (.binary op.operator) [w.1 pos, e.operand v w] w
    return (r, World.assign w pos r)
  | .compoundMember op o k e, w => do
    let (vo, w) ← o.eval w
    let (vk, w) ← k.eval w
    let (v, w) ← e.eval w
    ops.apply (.derefInc op.char false o.isThis) [o.operand vo w, k.operand vk w, e.operand v w] w
  | .inc minus post pos, w => do
    let (r, w) ← ops.apply .inc [w.1 pos, ops.integer (incDiff minus)] w
    return (if post then w.1 pos else r, World.assign w pos r)
  | .incOuter minus post pos, w => do
    let (v, w) ← ops.apply (.getOuter pos) [] w
    let (r, w) ← ops.apply .inc [v, ops.integer (incDiff minus)] w
    let (_, w) ← ops.apply (.setOuter pos) [r] w
    return (if post then v else r, w)
  | .incMember minus post o k, w => do
    let (vo, w) ← o.eval w
    let (vk, w) ← k.eval w
    ops.apply (.derefInc 43 post o.isThis)
      [o.operand vo w, k.operand vk w, ops.integer (incDiff minus)] w
  | .delete o k, w => do
    let (vo, w) ← o.eval w
    let (vk, w) ← k.eval w
    ops.apply .delete [o.operand vo w, k.operand vk w] w
  | .array elements, w => do
    let (v, w) ← ops.apply .newArray [] w
    let w ← elements.evalElements v w
    return (v, w)
  | .call f args, w => do
    let (vf, w) ← f.eval w
    let this := w.1 0
    let (vs, w) ← args.evalArgs w
    ops.apply .call (f.operand vf w :: this :: vs) w
  | .callMember o k args, w => do
    let (vo, w) ← o.eval w
    let (vk, w) ← k.eval w
    let (vf, w) ← ops.apply (.get o.isThis) [o.operand vo w, k.operand vk w] w
    let this := o.operand vo w
    let (vs, w) ← args.evalArgs w
    ops.apply .call (vf :: this :: vs) w

/-- The elements are appended to the array `v` in turn. -/
@[simp]
def Expressions.evalElements (v : V) :
    Expressions → World V G → Except (E × World V G) (World V G)
  | .nil, w => .ok w
  | .cons e es, w => do
    let (ve, w) ← e.eval w
    let (_, w) ← ops.apply .append [v, e.operand ve w] w
    es.evalElements v w

@[simp]
def Expressions.evalArgs : Expressions → World V G → Except (E × World V G) (List V × World V G)
  | .nil, w => .ok ([], w)
  | .cons e es, w => do
    let (v, w) ← e.eval w
    let arg := e.operand v w
    let (vs, w) ← es.evalArgs w
    return (arg :: vs, w)

end

end Evaluation

/-! ## How many temporaries there are -/

/-- The temporaries that the value of an expression takes -/
def Expression.temps (e : Expression) : ℕ := if e.localVar.isSome then 0 else 1

mutual

/-- How many temporaries there are at once -/
@[simp]
def Expression.depth : Expression → ℕ
  | .leaf _ => 1
  | .var _ => 0
  | .member o k | .delete o k | .incMember _ _ o k =>
    max o.depth (max (o.temps + k.depth) 1)
  | .unary _ e | .assignOuter _ e => max e.depth 1
  | .binary _ a b => max a.depth (max (a.temps + b.depth) 1)
  | .and a b | .or a b => max a.depth (1 + b.depth)
  | .conditional c a b => max c.depth (1 + max a.depth b.depth)
  | .comma a b => max a.depth b.depth
  | .assign _ e | .compound _ _ e => e.depth
  | .assignMember o k e | .newSlot o k e | .compoundMember _ o k e =>
    max o.depth (max (o.temps + k.depth) (max (o.temps + k.temps + e.depth) 1))
  | .inc _ post _ => if post then 1 else 0
  | .incOuter _ post _ => if post then 2 else 1
  | .array elements => 1 + elements.depth
  | .call f args => max f.depth (f.temps + 1 + args.argsDepth)
  | .callMember o k args => max o.depth (max (o.temps + k.depth) (2 + args.argsDepth))

/-- The same of elements, which come one at a time -/
@[simp]
def Expressions.depth : Expressions → ℕ
  | .nil => 0
  | .cons e es => max e.depth es.depth

/-- The same of arguments, which stay -/
@[simp]
def Expressions.argsDepth : Expressions → ℕ
  | .nil => 0
  | .cons e es => max e.depth (1 + es.argsDepth)

end

/-! ## Where the optimizer is right -/

/-- The last instruction, where the optimizer may take it for what it is not: a comparison, or an
operator that stores in a variable. -/
inductive Tail
  | other
  | compare
  | compound (pos : ℕ)
  deriving DecidableEq

/-- The last instruction after an expression, by the one before it -/
def Expression.tail (τ : Tail) : Expression → Tail
  | .var _ => τ
  | .binary (.cmp _) _ _ => .compare
  | .comma a b => b.tail (a.tail τ)
  | .compound _ pos _ => .compound pos
  | _ => .other

/-- A move of the value is not merged with an operator that stores in a variable, which would be
stored in the target of the move instead. -/
def Expression.Moved (τ : Tail) (e : Expression) : Prop :=
  ∀ pos, e.localVar = some pos → e.tail τ ≠ .compound pos

/-- A jump on the value is not merged with a comparison of something else, and it is not a jump
on `this`, for which the optimizer takes the register away. -/
def Expression.Tested (τ : Tail) (e : Expression) : Prop :=
  ∀ pos, e.localVar = some pos → pos ≠ 0 ∧ e.tail τ ≠ .compare

section Fits

variable (named : ℕ → Prop)

mutual

/-- The variables have a name, `this` is not among those that an operator stores in, and moves and
jumps are merged with what they belong to. There is no `%`, whose errors `Execute` passes over, but
for that of `%=` on a member. -/
@[simp]
def Expression.Fits : Tail → Expression → Prop
  | _, .leaf _ => True
  | _, .var pos => named pos
  | τ, .member o k | τ, .delete o k | τ, .incMember _ _ o k => o.Fits τ ∧ k.Fits (o.tail τ)
  | τ, .unary _ e | τ, .assignOuter _ e => e.Fits τ
  | τ, .binary op a b => op ≠ .mod ∧ a.Fits τ ∧ b.Fits (a.tail τ)
  | τ, .and a b | τ, .or a b => a.Fits τ ∧ b.Fits .other
  | τ, .conditional c a b =>
    (c.Fits τ ∧ c.Tested τ) ∧ (a.Fits .other ∧ a.Moved .other) ∧ b.Fits .other ∧ b.Moved .other
  | τ, .comma a b => a.Fits τ ∧ b.Fits (a.tail τ)
  | τ, .assign pos e => named pos ∧ e.Fits τ ∧ e.Moved τ
  | τ, .compound op pos e => op ≠ .mod ∧ (named pos ∧ pos ≠ 0) ∧ e.Fits τ
  | τ, .assignMember o k e | τ, .newSlot o k e | τ, .compoundMember _ o k e =>
    o.Fits τ ∧ k.Fits (o.tail τ) ∧ e.Fits (k.tail (o.tail τ))
  | _, .inc _ _ pos => named pos
  | _, .incOuter _ _ _ => True
  | _, .array elements => elements.Fits
  | τ, .call f args => f.Fits τ ∧ args.ArgsFit .other
  | τ, .callMember o k args => o.Fits τ ∧ k.Fits (o.tail τ) ∧ args.ArgsFit .other

/-- The same of elements: after each there is an instruction that appends it. -/
@[simp]
def Expressions.Fits : Expressions → Prop
  | .nil => True
  | .cons e es => e.Fits .other ∧ es.Fits

/-- The same of arguments, each of which is moved when it is a variable -/
@[simp]
def Expressions.ArgsFit : Tail → Expressions → Prop
  | _, .nil => True
  | τ, .cons e es =>
    (e.Fits τ ∧ e.Moved τ) ∧ es.ArgsFit (if e.localVar.isSome then .other else e.tail τ)

end

end Fits

end Squirt.SQCompiler
