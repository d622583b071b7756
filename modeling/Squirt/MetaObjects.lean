import Squirt.ClassLayout
import Squirt.VmFrames
import Squirt.TracedRuns

/-!
# Objects with metamethods

Tables, userdata, classes and instances beside the stack of a VM, and how a metamethod is found
and called. An operation is a program over this store whose events are the calls it makes. The
calls themselves and the arithmetic of floats are parameters; a float is its bits.
-/

namespace Squirt

open SQTable (FinMap)

namespace SQObject

@[match_pattern] def integer (i : ℤ) : SQObject := .data 0x2 i
@[match_pattern] def float (f : ℤ) : SQObject := .data 0x4 f
@[match_pattern] def bool (b : ℤ) : SQObject := .data 0x8 b
@[match_pattern] def weakref (r : ℤ) : SQObject := .data 0x10000 r
@[match_pattern] def table (r : ℕ) : SQObject := .delegable 0x20 r
@[match_pattern] def userdata (r : ℕ) : SQObject := .delegable 0x80 r
@[match_pattern] def instance_ (r : ℕ) : SQObject := .delegable 0x8000 r

/-- `SQObjectPtr(bool)` -/
def ofBool (b : Bool) : SQObject := .bool (if b then 1 else 0)

def isnumeric (o : SQObject) : Bool := o.type = 0x2 || o.type = 0x4

def typeName (o : SQObject) : String :=
  match o.type with
  | 0x1 => "null"
  | 0x2 => "integer"
  | 0x4 => "float"
  | 0x8 => "bool"
  | 0x10 => "string"
  | 0x20 => "table"
  | 0x40 => "array"
  | 0x400 => "generator"
  | 0x100 | 0x200 => "function"
  | 0x80 | 0x800 => "userdata"
  | 0x1000 => "thread"
  | 0x2000 => "function"
  | 0x4000 => "class"
  | 0x8000 => "instance"
  | 0x10000 => "weakref"
  | 0x20000 => "outer"
  | _ => "(null)"

end SQObject

/-- `MT_ADD` and so on -/
inductive SQMetaMethod
  | add | sub | mul | div | unm | modulo | set | get | typeof | nexti | cmp | call | cloned
  | newslot | delslot | tostring | newmember | inherited | eq
  deriving DecidableEq

namespace SQMetaMethod

/-- `MM_ADD` and so on -/
def name : SQMetaMethod → String
  | add => "_add"
  | sub => "_sub"
  | mul => "_mul"
  | div => "_div"
  | unm => "_unm"
  | modulo => "_modulo"
  | set => "_set"
  | get => "_get"
  | typeof => "_typeof"
  | nexti => "_nexti"
  | cmp => "_cmp"
  | call => "_call"
  | cloned => "_cloned"
  | newslot => "_newslot"
  | delslot => "_delslot"
  | tostring => "_tostring"
  | newmember => "_newmember"
  | inherited => "_inherited"
  | eq => "_eq"

/-- The enumeration in its order -/
def all : List SQMetaMethod :=
  [add, sub, mul, div, unm, modulo, set, get, typeof, nexti, cmp, call, cloned, newslot, delslot,
    tostring, newmember, inherited, eq]

def idx (mm : SQMetaMethod) : ℕ := all.idxOf mm

end SQMetaMethod

def GetMetaMethodIdxByName : SQObject → Option ℕ
  | .string s => (SQMetaMethod.all.find? fun mm => mm.name == s).map SQMetaMethod.idx
  | _ => none

structure Table where
  slots : FinMap SQObject SQObject
  delegate : Option ℕ

/-- A userdata is its delegate, `memberDelegates` has the delegates of the member tables of the
classes, `memberAttributes` goes by class and member index. -/
structure Store where
  vm : SQVM
  temp_reg : SQObject
  roottable : ℕ
  tables : List Table
  userdata : List (Option ℕ)
  heap : ClassHeap SQObject SQObject
  memberDelegates : List (Option ℕ)
  attributes : ℕ → SQObject
  memberAttributes : ℕ → ℕ → SQObject
  /-- `_weakref(o)->_obj` -/
  weakrefs : ℤ → SQObject

/-- The tables with what every object of a type has -/
structure DefaultDelegates where
  clazz : ℕ
  table : ℕ
  array : ℕ
  string : ℕ
  instance_ : ℕ
  number : ℕ
  generator : ℕ
  closure : ℕ
  thread : ℕ
  weakref : ℕ

/-- What the operations use of the rest of the program and of the machine -/
structure Runtime where
  /-- `SQVM::Call` of a closure with so many arguments from a place in the stack on, none when it
  does not return; its result is none when it fails -/
  call : Store → SQObject → ℕ → ℤ → Option (Store × Option SQObject)
  defaultDelegates : DefaultDelegates
  /-- a clone of a closure, with its `_base` -/
  withBase : SQObject → ℕ → SQObject
  /-- `_rawval(o)` as a pointer -/
  address : SQObject → ℤ
  /-- whether `SQTable::_Get` comes to a free node when it looks for null: that goes by how the
  nodes of the table have been filled -/
  nullNode : List Table → ℕ → Bool
  /-- `SQTable::Next`: the index for the next iteration, the key and the value, by the table and
  the index so far -/
  tableNext : Store → ℕ → SQObject → Option (ℤ × SQObject × SQObject)
  /-- `SQTable::Next` of the members of a class -/
  membersNext : Store → ℕ → SQObject → Option (ℤ × SQObject × ℕ)
  /-- `(SQFloat)i` -/
  toFloat : ℤ → ℤ
  /-- `(SQInteger)f` -/
  toInteger : ℤ → ℤ
  fadd : ℤ → ℤ → ℤ
  fsub : ℤ → ℤ → ℤ
  fmul : ℤ → ℤ → ℤ
  fdiv : ℤ → ℤ → ℤ
  fmod : ℤ → ℤ → ℤ
  fneg : ℤ → ℤ
  feq : ℤ → ℤ → Bool
  flt : ℤ → ℤ → Bool
  /-- `scstrcmp` -/
  strcmp : String → String → ℤ
  /-- `%g` and `%.14g` -/
  showFloat : String → ℤ → String
  /-- `0x%p` -/
  showAddress : ℤ → String

/-- A call that an operation makes: the metamethod it is for, the closure, and the value left in
`_lasterror` when it fails -/
structure MetaCall where
  mm : SQMetaMethod
  closure : SQObject
  failure : Option SQObject

/-- An operation of a VM -/
abbrev VmOp := Traced Store MetaCall

namespace Store

variable (s : Store)

def realval : SQObject → SQObject
  | .weakref r => s.weakrefs r
  | o => o

/-- `SQTable::Get` -/
def tableGet (t : ℕ) (key : SQObject) : Option SQObject :=
  if key = .null then none
  else (s.tables[t]?).bind fun table => (table.slots.lookup key).map s.realval

/-- A write to the slots of a table -/
def setSlots (t : ℕ) (f : FinMap SQObject SQObject → FinMap SQObject SQObject) : Store :=
  { s with tables := s.tables.modify t fun table => { table with slots := f table.slots } }

/-- `SQTable::Set`, none for false; for null the value goes to a free node. -/
def tableSet (rt : Runtime) (t : ℕ) (key val : SQObject) : Option Store :=
  (s.tables[t]?).bind fun table =>
    if key = .null then if rt.nullNode s.tables t then some s else none
    else if key ∈ table.slots then some (s.setSlots t fun slots => slots.insert key val)
    else none

def delegate : SQObject → Option ℕ
  | .table r => (s.tables[r]?).bind Table.delegate
  | .userdata r => (s.userdata[r]?).bind id
  | _ => none

/-- `is_delegable(o) && _delegable(o)->_delegate`; the delegate of an instance is the table of the
members of its class. -/
def hasDelegate (o : SQObject) : Bool :=
  match o with
  | .instance_ _ => true
  | o => (s.delegate o).isSome

def classOf (r : ℕ) : Option (SQClass SQObject SQObject) :=
  (s.heap.instances[r]?).bind fun i => s.heap.classes[i.cls]?

/-- `GetMetaMethod`, for an instance from its class -/
def getMetaMethod (o : SQObject) (mm : SQMetaMethod) : Option SQObject :=
  match o with
  | .instance_ r => (s.classOf r).bind fun c => c.metamethods mm.idx
  | o => (s.delegate o).bind fun d => s.tableGet d (.string mm.name)

/-- What classes find out about objects -/
def classObjects (rt : Runtime) : ClassObjects SQObject SQObject where
  isClosure o := o.type = 0x100
  isNativeClosure o := o.type = 0x200
  withBase := rt.withBase
  realval := s.realval
  metamethodIdx := GetMetaMethodIdxByName
  constructor := .string "constructor"

end Store

namespace VmOp

variable (rt : Runtime)

/-- A step on the stack -/
def vmStep (f : SQVM → Option SQVM) : VmOp Unit :=
  .step fun s => (f s.vm).map fun vm => ((), { s with vm := vm })

def push (o : SQObject) : VmOp Unit := vmStep (·.push o)

def pushAll (os : List SQObject) : VmOp Unit := vmStep (·.pushAll os)

def pop (n : ℕ) : VmOp Unit := vmStep (·.pop n)

/-- `_stack._vals[_stackbase + a]` -/
def stk (a : ℤ) : VmOp SQObject := .step fun s => (s.vm.stk a).map (·, s)

def raiseError (message : String) : VmOp Unit :=
  .modify fun s => { s with vm := s.vm.raiseError message }

def printObjVal : SQObject → String
  | .string s => s
  | .integer i => toString i
  | .float f => rt.showFloat "%.14g" f
  | o => o.typeName

/-- `%.50s` -/
def shorten (s : String) : String := String.ofList (s.toList.take 50)

def raiseIdxError (key : SQObject) : VmOp Unit :=
  raiseError s!"the index '{shorten (printObjVal rt key)}' does not exist"

def raiseCompareError (o1 o2 : SQObject) : VmOp Unit :=
  let oval1 := shorten (printObjVal rt o1)
  let oval2 := shorten (printObjVal rt o2)
  raiseError s!"comparison between '{oval1}' and '{oval2}'"

/-- `_nmetamethodscall++` -/
def enterMetaMethod : VmOp Unit :=
  .modify fun s => { s with vm := { s.vm with nmetamethodscall := s.vm.nmetamethodscall + 1 } }

/-- `_nmetamethodscall--` -/
def leaveMetaMethod : VmOp Unit :=
  .modify fun s => { s with vm := { s.vm with nmetamethodscall := s.vm.nmetamethodscall - 1 } }

/-- `Call(closure, nparams, _top - nparams, outres, SQFalse)` -/
def call (mm : SQMetaMethod) (closure : SQObject) (nparams : ℕ) : VmOp (Option SQObject) := fun s =>
  match rt.call s closure nparams (s.vm.top - nparams) with
  | none => .diverged s (some ⟨mm, closure, none⟩)
  | some (s, some res) => .done (some res) s [⟨mm, closure, none⟩]
  | some (s, none) => .done none s [⟨mm, closure, some s.vm.lasterror⟩]

def callMetaMethod (closure : SQObject) (mm : SQMetaMethod) (nparams : ℕ) :
    VmOp (Option SQObject) := do
  enterMetaMethod
  let res ← call rt mm closure nparams
  leaveMetaMethod
  pop nparams
  pure res

def getMetaMethod (o : SQObject) (mm : SQMetaMethod) : VmOp (Option SQObject) :=
  .read fun s => s.getMetaMethod o mm

end VmOp

/-- Calls that return null at once, on a machine whose floats are all zero -/
def nullRuntime : Runtime where
  call s _ _ _ := some (s, some .null)
  defaultDelegates := ⟨0, 0, 0, 0, 0, 0, 0, 0, 0, 0⟩
  withBase o _ := o
  address _ := 0
  nullNode _ _ := false
  tableNext _ _ _ := none
  membersNext _ _ _ := none
  toFloat _ := 0
  toInteger _ := 0
  fadd _ _ := 0
  fsub _ _ := 0
  fmul _ _ := 0
  fdiv _ _ := 0
  fmod _ _ := 0
  fneg _ := 0
  feq _ _ := true
  flt _ _ := false
  strcmp _ _ := 0
  showFloat _ _ := "0"
  showAddress _ := "0"

/-- A store with nothing but an empty root table -/
def emptyStore : Store where
  vm := SQVM.init 40 fun _ => 0
  temp_reg := .null
  roottable := 0
  tables := [⟨∅, none⟩]
  userdata := []
  heap := ⟨[], []⟩
  memberDelegates := []
  attributes _ := .null
  memberAttributes _ _ := .null
  weakrefs _ := .null

end Squirt
