import Mathlib.Data.List.Basic
import Mathlib.Data.Int.Basic

/-!
# Objects that calls work with

Closures, native closures, generators and the records a call keeps. Objects are referred
to by number; the instructions of a function and the line information are not here.
-/

namespace Squirt

/-- `OT_STRING`, `OT_ARRAY`, `OT_CLOSURE` and so on: the `_RT_` bit of each type. -/
abbrev ObjType := ℕ

/-- A slot of the stack. -/
inductive SQObject
  | null
  /-- a value of a type that cannot be called and has no delegate -/
  | data (type : ObjType) (bits : ℤ)
  | string (s : String)
  | array (r : ℕ)
  /-- a table, a userdata or an instance -/
  | delegable (type : ObjType) (r : ℕ)
  | closure (r : ℕ)
  | nativeclosure (r : ℕ)
  | generator (r : ℕ)
  | clazz (r : ℕ)
  deriving DecidableEq

namespace SQObject

instance : Inhabited SQObject := ⟨.null⟩

/-- `sqobjtype(o)`, as the bit a type mask tests. -/
def type : SQObject → ObjType
  | null => 0x1
  | data type _ => type
  | string _ => 0x10
  | array _ => 0x40
  | delegable type _ => type
  | closure _ => 0x100
  | nativeclosure _ => 0x200
  | generator _ => 0x400
  | clazz _ => 0x4000

end SQObject

def OT_INSTANCE : ObjType := 0x8000

def MAX_NATIVE_CALLS : ℕ := 100
def MIN_STACK_OVERHEAD : ℕ := 15
def MAX_FUNC_STACKSIZE : ℕ := 255

structure SQFunctionProto where
  nparameters : ℕ
  stacksize : ℕ
  ndefaultparams : ℕ
  varparams : Bool
  bgenerator : Bool

/-- `CLOSURE_OP` copies as many default parameters as the prototype has. -/
structure SQClosure where
  function : SQFunctionProto
  defaultparams : List SQObject
  /-- the object of a bound environment -/
  env : Option SQObject
  defaults : defaultparams.length = function.ndefaultparams

structure SQNativeClosure where
  nparamscheck : ℤ
  /-- `none` is the mask -1, any type -/
  typecheck : List (Option ℕ)
  outervalues : List SQObject
  env : Option SQObject

/-- What a VM finds out about objects while it makes calls. -/
structure Heap where
  closure : ℕ → SQClosure
  nativeclosure : ℕ → SQNativeClosure
  /-- the constructor of a class, null when it has none -/
  constructor : ℕ → SQObject
  /-- the `_call` metamethod of a delegable, null when it has none -/
  metacall : ℕ → SQObject

structure CallInfo where
  closure : SQObject
  generator : Option ℕ
  etraps : ℕ
  prevstkbase : ℤ
  prevtop : ℤ
  target : ℤ
  ncalls : ℕ
  root : Bool
  deriving DecidableEq

structure SQExceptionTrap where
  stackbase : ℤ
  stacksize : ℤ
  extarget : ℕ
  deriving DecidableEq

inductive GeneratorState
  | running
  | suspended
  | dead
  deriving DecidableEq

/-- The last element of a `sqvector` is the head of its list here. -/
structure SQGenerator where
  state : GeneratorState
  stack : List SQObject
  ci : CallInfo
  etraps : List SQExceptionTrap
  deriving DecidableEq

end Squirt
