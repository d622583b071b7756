import Squirt.MetaObjects

/-!
# The operations that call metamethods

The functions of `SQVM` that find a metamethod for their operand, push its arguments, call it and
pop them again. What a function stores through a reference is part of its result here, and none is
the result of a function that returns false.
-/

namespace Squirt

open SQTable (FinMap)

namespace VmOp

variable (rt : Runtime)

/-- A table, a userdata or an instance with a delegate that has the metamethod -/
def delegatedMetaMethod (o : SQObject) (mm : SQMetaMethod) : VmOp (Option SQObject) := do
  if ← .read fun s => s.hasDelegate o then getMetaMethod o mm else pure none

/-- `raiseError` and `return false` -/
def fail {α : Type} (message : String) : VmOp (Option α) := do
  raiseError message
  pure none

/-! ## Arithmetic -/

/-- The characters that `ARITH_OP` gets -/
inductive ArithOp
  | add | sub | mul | div | mod
  deriving DecidableEq

namespace ArithOp

def mm : ArithOp → SQMetaMethod
  | add => .add
  | sub => .sub
  | mul => .mul
  | div => .div
  | mod => .modulo

def char : ArithOp → String
  | add => "+"
  | sub => "-"
  | mul => "*"
  | div => "/"
  | mod => "%"

/-- `i1 op i2` of two `SQInteger`s, none where it is undefined -/
def ofIntegers (op : ArithOp) (i1 i2 : ℤ) : Option ℤ :=
  match op with
  | add => some (Int.bmod (i1 + i2) (2 ^ 64))
  | sub => some (Int.bmod (i1 - i2) (2 ^ 64))
  | mul => some (Int.bmod (i1 * i2) (2 ^ 64))
  | div => if i2 = 0 ∨ i1 = -2 ^ 63 ∧ i2 = -1 then none else some (i1.tdiv i2)
  | mod => if i2 = 0 ∨ i1 = -2 ^ 63 ∧ i2 = -1 then none else some (i1.tmod i2)

/-- `f1 op f2` of two `SQFloat`s -/
def ofFloats (op : ArithOp) : ℤ → ℤ → ℤ :=
  match op with
  | add => rt.fadd
  | sub => rt.fsub
  | mul => rt.fmul
  | div => rt.fdiv
  | mod => rt.fmod

end ArithOp

/-- What `sqobjtype(o1)|sqobjtype(o2)` tells apart; numbers of two types become floats. -/
inductive Operands
  | integers (i1 i2 : ℤ)
  | floats (f1 f2 : ℤ)
  | others

def operands : SQObject → SQObject → Operands
  | .integer i1, .integer i2 => .integers i1 i2
  | .integer i1, .float f2 => .floats (rt.toFloat i1) f2
  | .float f1, .integer i2 => .floats f1 (rt.toFloat i2)
  | .float f1, .float f2 => .floats f1 f2
  | _, _ => .others

/-- An operation that is defined for these integers -/
def integerResult (res : Option ℤ) : VmOp (Option SQObject) :=
  .step fun s => res.map fun i => (some (.integer i), s)

/-- `ToString` -/
def toStr (o : SQObject) : VmOp (Option String) :=
  match o with
  | .string s => pure (some s)
  | .float f => pure (some (rt.showFloat "%g" f))
  | .integer i => pure (some (toString i))
  | .bool b => pure (some (if b ≠ 0 then "true" else "false"))
  | o => do
    match ← delegatedMetaMethod o .tostring with
    | some closure =>
      push o
      match ← callMetaMethod rt closure .tostring 1 with
      | some (.string s) => pure (some s)
      | some _ => pure (some (printed o))
      | none => pure none
    | none => pure (some (printed o))
where
  printed (o : SQObject) : String := s!"({o.typeName} : 0x{rt.showAddress (rt.address o)})"

def stringCat (str obj : SQObject) : VmOp (Option SQObject) := do
  match ← toStr rt str with
  | none => pure none
  | some a =>
    match ← toStr rt obj with
    | none => pure none
    | some b => pure (some (.string (a ++ b)))

def arithMetaMethod (op : ArithOp) (o1 o2 : SQObject) : VmOp (Option SQObject) := do
  match ← delegatedMetaMethod o1 op.mm with
  | some closure =>
    push o1
    push o2
    callMetaMethod rt closure op.mm 2
  | none => fail s!"arith op {op.char} on between '{o1.typeName}' and '{o2.typeName}'"

def arithOp (op : ArithOp) (o1 o2 : SQObject) : VmOp (Option SQObject) :=
  match operands rt o1 o2 with
  | .integers i1 i2 =>
    match op with
    | .div =>
      if i2 = 0 then fail "division by zero" else integerResult (ArithOp.div.ofIntegers i1 i2)
    | .mod =>
      if i2 = 0 then fail "modulo by zero" else integerResult (ArithOp.mod.ofIntegers i1 i2)
    | op => integerResult (op.ofIntegers i1 i2)
  | .floats f1 f2 => pure (some (.float (op.ofFloats rt f1 f2)))
  | .others =>
    if op = .add ∧ (o1.type = 0x10 ∨ o2.type = 0x10) then stringCat rt o1 o2
    else arithMetaMethod rt op o1 o2

/-- `NEG_OP`, with the value of `trg` before -/
def negOp (trg o : SQObject) : VmOp (Option SQObject) :=
  match o with
  | .integer i => pure (some (.integer (Int.bmod (-i) (2 ^ 64))))
  | .float f => pure (some (.float (rt.fneg f)))
  | o => do
    match ← delegatedMetaMethod o .unm with
    | some closure =>
      push o
      match ← callMetaMethod rt closure .unm 1 with
      | some res =>
        -- `_Swap(trg, temp_reg)`
        .modify fun s => { s with temp_reg := trg }
        pure (some res)
      | none => pure none
    | none => fail s!"attempt to negate a {o.typeName}"

/-! ## Comparison -/

def objCmp (o1 o2 : SQObject) : VmOp (Option ℤ) :=
  if o1.type = o2.type then
    if o1 = o2 then pure (some 0)
    else match o1, o2 with
      | .string a, .string b => pure (some (rt.strcmp a b))
      | .integer a, .integer b => pure (some (if a < b then -1 else 1))
      | .float a, .float b => pure (some (if rt.flt a b then -1 else 1))
      | o1, o2 => do
        match ← delegatedMetaMethod o1 .cmp with
        | some closure =>
          push o1
          push o2
          match ← callMetaMethod rt closure .cmp 2 with
          | some (.integer i) => pure (some i)
          | some _ => fail "_cmp must return an integer"
          | none => pure none
        | none => pure (some (if rt.address o1 < rt.address o2 then -1 else 1))
  else match operands rt o1 o2 with
    | .floats f1 f2 => pure (some (if rt.feq f1 f2 then 0 else if rt.flt f1 f2 then -1 else 1))
    | _ =>
      if o1 = .null then pure (some (-1))
      else if o2 = .null then pure (some 1)
      else do
        raiseCompareError rt o1 o2
        pure none

def isFalse : SQObject → Bool
  | .null => true
  | .float f => rt.feq f 0 || f = 0
  | .data _ bits => bits = 0
  | _ => false

/-- `IsEqual`, with a VM or without -/
def isEqual (withVm : Bool) (o1 o2 : SQObject) : VmOp (Option Bool) :=
  if o1.type = o2.type then
    if o1 = o2 then pure (some true)
    else if withVm then do
      match ← delegatedMetaMethod o1 .eq with
      | some closure =>
        push o1
        push o2
        match ← callMetaMethod rt closure .eq 2 with
        | some (.bool b) => pure (some (isFalse rt (.bool b)))
        | some _ => fail "_eq must return an boolean"
        | none => pure (some false)
      | none => pure (some false)
    else pure (some false)
  else match operands rt o1 o2 with
    | .floats f1 f2 => pure (some (rt.feq f1 f2))
    | _ => pure (some false)

def typeOf (obj1 : SQObject) : VmOp (Option SQObject) := do
  match ← delegatedMetaMethod obj1 .typeof with
  | some closure =>
    push obj1
    callMetaMethod rt closure .typeof 1
  | none => pure (some (.string obj1.typeName))

/-! ## Slots -/

def DONT_FALL_BACK : ℤ := 666

def tointeger : SQObject → ℤ
  | .float f => rt.toInteger f
  | .data _ bits => bits
  | _ => 0

/-- `SQArray::Get` -/
def arrayGet (s : Store) (r : ℕ) (nidx : ℤ) : Option SQObject :=
  if 0 ≤ nidx then (s.vm.arrays[r]?).bind fun values => (values[nidx.toNat]?).map s.realval
  else none

/-- `SQArray::Set`, none for false -/
def arraySet (s : Store) (r : ℕ) (nidx : ℤ) (val : SQObject) : Option Store :=
  (s.vm.arrays[r]?).bind fun values =>
    if 0 ≤ nidx ∧ nidx < values.length then
      some { s with vm := { s.vm with arrays := s.vm.arrays.set r (values.set nidx.toNat val) } }
    else none

/-- `SQTable::Get`, `SQInstance::Get` and `SQClass::Get` -/
def slotOf (s : Store) (self key : SQObject) : Option SQObject :=
  match self with
  | .table r => s.tableGet r key
  | .instance_ r => s.heap.get (s.classObjects rt) r key
  | .clazz r => (s.heap.classes[r]?).bind fun c => c.get (s.classObjects rt) key
  | _ => none

/-- The first switch of `Get`: the result of the function, or none to go on -/
def getSlot (self key : SQObject) : VmOp (Option (Option SQObject)) :=
  match self with
  | .array r =>
    if key.isnumeric then do
      match ← .read fun s => arrayGet s r (tointeger rt key) with
      | some dest => pure (some (some dest))
      | none =>
        raiseIdxError rt key
        pure (some none)
    else pure none
  | .string str =>
    if key.isnumeric then
      let n := tointeger rt key
      -- `abs` of the least `int`
      if Int.bmod n (2 ^ 32) = -2 ^ 31 then .step fun _ => none
      else if (Int.bmod n (2 ^ 32)).natAbs < str.length then
        let n := if n < 0 then str.length - n else n
        -- a negative index is read past the end of the string
        .step fun s => (str.toList[n.toNat]?).map fun c => (some (some (.integer c.toNat)), s)
      else do
        raiseIdxError rt key
        pure (some none)
    else pure none
  | self => .read fun s => (slotOf rt s self key).map some

/-- `FALLBACK_OK`, with what is stored in `dest`, and so on -/
inductive FallBack
  | ok (dest : SQObject)
  | noMatch
  | error

/-- The part of `FallBackGet` that calls `_get` -/
def metaGet (self key : SQObject) : VmOp FallBack := do
  match ← getMetaMethod self .get with
  | some closure =>
    push self
    push key
    enterMetaMethod
    match ← call rt .get closure 2 with
    | some dest =>
      pop 2
      leaveMetaMethod
      pure (.ok dest)
    | none =>
      pop 2
      leaveMetaMethod
      if (← .read fun s => s.vm.lasterror) ≠ .null then pure .error else pure .noMatch
  | none => pure .noMatch

/-- `FallBackGet`; `get` is `Get` of `key` from a delegate. -/
def fallBackGet (get : SQObject → VmOp (Option SQObject)) (self key : SQObject) : VmOp FallBack :=
  match self with
  | .delegable 0x20 _ | .delegable 0x80 _ => do
    match ← .read fun s => s.delegate self with
    | some d =>
      match ← get (.table d) with
      | some dest => pure (.ok dest)
      | none => metaGet rt self key
    | none => pure .noMatch
  | .instance_ _ => metaGet rt self key
  | _ => pure .noMatch

def invokeDefaultDelegate (self key : SQObject) : VmOp (Option SQObject) :=
  .read fun s => (ddel self.type).bind fun d => s.tableGet d key
where
  ddel : ObjType → Option ℕ
    | 0x4000 => some rt.defaultDelegates.clazz
    | 0x20 => some rt.defaultDelegates.table
    | 0x40 => some rt.defaultDelegates.array
    | 0x10 => some rt.defaultDelegates.string
    | 0x8000 => some rt.defaultDelegates.instance_
    | 0x2 | 0x4 | 0x8 => some rt.defaultDelegates.number
    | 0x400 => some rt.defaultDelegates.generator
    | 0x100 | 0x200 => some rt.defaultDelegates.closure
    | 0x1000 => some rt.defaultDelegates.thread
    | 0x10000 => some rt.defaultDelegates.weakref
    | _ => none

/-- The end of `Get`, after the fall backs -/
def getRoot (key : SQObject) (selfidx : ℤ) : VmOp (Option SQObject) := do
  match ← .read fun s => if selfidx = 0 then s.tableGet s.roottable key else none with
  | some dest => pure (some dest)
  | none =>
    raiseIdxError rt key
    pure none

def get : ℕ → SQObject → SQObject → Bool → ℤ → VmOp (Option SQObject)
  | 0, _, _, _, _ => .outOfFuel
  | fuel + 1, self, key, raw, selfidx => do
    match ← getSlot rt self key with
    | some res => pure res
    | none =>
      if raw then getRoot rt key selfidx
      else
        match ← fallBackGet rt (fun d => get fuel d key false DONT_FALL_BACK) self key with
        | .ok dest => pure (some dest)
        | .error => pure none
        | .noMatch =>
          match ← invokeDefaultDelegate rt self key with
          | some dest => pure (some dest)
          | none => getRoot rt key selfidx

/-- The first switch of `Set`: the result of the function, or none to go on -/
def setSlot (self key val : SQObject) : VmOp (Option Bool) :=
  match self with
  | .table r => .step fun s =>
    match s.tableSet rt r key val with
    | some s => some (some true, s)
    | none => some (none, s)
  | .instance_ r => .step fun s =>
    match s.heap.set r key val with
    | some (heap, true) => some (some true, { s with heap := heap })
    | _ => some (none, s)
  | .array r =>
    if !key.isnumeric then do
      raiseError s!"indexing {self.typeName} with {key.typeName}"
      pure (some false)
    else do
      match ← .step fun s =>
        match arraySet s r (tointeger rt key) val with
        | some s => some (true, s)
        | none => some (false, s) with
      | true => pure (some true)
      | false =>
        raiseIdxError rt key
        pure (some false)
  | self => do
    raiseError s!"trying to set '{self.typeName}'"
    pure (some false)

/-- The part of `FallBackSet` that calls `_set` -/
def metaSet (self key val : SQObject) : VmOp FallBack := do
  match ← getMetaMethod self .set with
  | some closure =>
    push self
    push key
    push val
    enterMetaMethod
    match ← call rt .set closure 3 with
    | some _ =>
      pop 3
      leaveMetaMethod
      pure (.ok .null)
    | none =>
      if (← .read fun s => s.vm.lasterror) ≠ .null then do
        pop 3
        leaveMetaMethod
        pure .error
      else do
        -- the arguments stay on the stack
        leaveMetaMethod
        pure .noMatch
  | none => pure .noMatch

/-- `FallBackSet`; `set` is `Set` in a delegate. -/
def fallBackSet (set : SQObject → VmOp Bool) (self key val : SQObject) : VmOp FallBack :=
  match self with
  | .table r => do
    match ← .read fun s => s.delegate (.table r) with
    | some d =>
      if ← set (.table d) then pure (.ok .null) else metaSet rt (.table r) key val
    | none => metaSet rt (.table r) key val
  | .delegable 0x8000 _ | .delegable 0x80 _ => metaSet rt self key val
  | _ => pure .noMatch

/-- The end of `Set`, after the fall backs -/
def setRoot (key val : SQObject) (selfidx : ℤ) : VmOp Bool := do
  match ← .step fun s =>
    if selfidx = 0 then
      match s.tableSet rt s.roottable key val with
      | some s => some (true, s)
      | none => some (false, s)
    else some (false, s) with
  | true => pure true
  | false =>
    raiseIdxError rt key
    pure false

def set : ℕ → SQObject → SQObject → SQObject → ℤ → VmOp Bool
  | 0, _, _, _, _ => .outOfFuel
  | fuel + 1, self, key, val, selfidx => do
    match ← setSlot rt self key val with
    | some ok => pure ok
    | none =>
      match ← fallBackSet rt (fun d => set fuel d key val DONT_FALL_BACK) self key val with
      | .ok _ => pure true
      | .error => pure false
      | .noMatch => setRoot rt key val selfidx

end VmOp

end Squirt
