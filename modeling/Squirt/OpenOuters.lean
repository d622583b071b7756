import Mathlib.Data.List.Basic

/-!
# Captured variables on the stack

`FindOuter`, `CloseOuters`, `RelocateOuters` and the instructions that use an `SQOuter`, with the
pointers into the stack. The stack is at an address that changes when it grows; `none` is the use of
a pointer that does not point at a value.
-/

namespace Squirt.Outers

variable {V : Type}

/-- Where `_valptr` points -/
inductive Valptr
  /-- to an element of the block that `_stack._vals` once was -/
  | stack (block index : ℕ)
  /-- `&_value` -/
  | value
  deriving DecidableEq

structure SQOuter (V : Type) where
  valptr : Valptr
  idx : ℕ
  value : V

/-- Outers are numbered; `openouters` follows `_next`. -/
structure SQVM (V : Type) where
  block : ℕ
  stack : List V
  outers : List (SQOuter V)
  openouters : List ℕ

namespace SQVM

/-- The difference of the pointer to `_stack._vals`, none for a pointer elsewhere -/
def offset (vm : SQVM V) : Valptr → Option ℕ
  | .stack block index => if block = vm.block then some index else none
  | .value => none

/-- `_valptr` of an outer in `_openouters`, as an index into the stack -/
def position (vm : SQVM V) (p : ℕ) : Option ℕ := (vm.outers[p]?).bind fun otr => vm.offset otr.valptr

/-- The loop of `FindOuter`: the outer that was found, or the number of the new one -/
def findLoop (vm : SQVM V) (stackindex : ℕ) : List ℕ → Option (ℕ × List ℕ)
  | [] => some (vm.outers.length, [vm.outers.length])
  | p :: rest => (vm.position p).bind fun i =>
    if i ≥ stackindex then
      if i = stackindex then some (p, p :: rest)
      else (findLoop vm stackindex rest).map fun (otr, rest) => (otr, p :: rest)
    else some (vm.outers.length, vm.outers.length :: p :: rest)

/-- `FindOuter`: a new outer is `SQOuter::Create`, whose `_value` is null. -/
def findOuter (null : V) (vm : SQVM V) (stackindex : ℕ) : Option (SQVM V × ℕ) :=
  (vm.findLoop stackindex vm.openouters).map fun (otr, openouters) =>
    if otr < vm.outers.length then (vm, otr)
    else ({ vm with
      outers := vm.outers ++ [⟨.stack vm.block stackindex, stackindex, null⟩]
      openouters := openouters }, otr)

/-- `p->_value = *(p->_valptr); p->_valptr = &p->_value` -/
def closeOuter (vm : SQVM V) (p i : ℕ) : Option (SQVM V) :=
  (vm.stack[i]?).map fun v =>
    { vm with outers := vm.outers.modify p fun otr => { otr with value := v, valptr := .value } }

/-- The loop of `CloseOuters` over what is left of `_openouters` -/
def closeLoop (stackindex : ℕ) : List ℕ → SQVM V → Option (SQVM V)
  | [], vm => some { vm with openouters := [] }
  | p :: rest, vm => (vm.position p).bind fun i =>
    if i ≥ stackindex then (vm.closeOuter p i).bind fun vm => closeLoop stackindex rest vm
    else some { vm with openouters := p :: rest }

def closeOuters (vm : SQVM V) (stackindex : ℕ) : Option (SQVM V) :=
  closeLoop stackindex vm.openouters vm

def relocateOuters (vm : SQVM V) : SQVM V :=
  let relocate (outers : List (SQOuter V)) (p : ℕ) : List (SQOuter V) :=
    outers.modify p fun otr => { otr with valptr := .stack vm.block otr.idx }
  { vm with outers := vm.openouters.foldl relocate vm.outers }

/-- `_stack.resize`, after which the stack is at `block` -/
def resize (null : V) (vm : SQVM V) (block n : ℕ) : SQVM V :=
  { vm with block := block, stack := vm.stack ++ List.replicate n null }

/-- `*(otr->_valptr)` -/
def deref (vm : SQVM V) (p : ℕ) : Option V :=
  (vm.outers[p]?).bind fun otr => match otr.valptr with
    | .value => some otr.value
    | .stack block index => (vm.offset (.stack block index)).bind fun i => vm.stack[i]?

/-- `*(otr->_valptr) = v` -/
def assign (vm : SQVM V) (p : ℕ) (v : V) : Option (SQVM V) :=
  (vm.outers[p]?).bind fun otr => match otr.valptr with
    | .value => some { vm with outers := vm.outers.modify p fun otr => { otr with value := v } }
    | .stack block index => (vm.offset (.stack block index)).bind fun i =>
      if i < vm.stack.length then some { vm with stack := vm.stack.set i v } else none

end SQVM

/-! ## Steps -/

/-- What is done to the stack and to the outers -/
inductive Op (V : Type)
  /-- a register is read, by its place on the stack -/
  | get (i : ℕ)
  | set (i : ℕ) (v : V)
  /-- the capture of a register by `CLOSURE_OP` -/
  | capture (i : ℕ)
  /-- `_OP_GETOUTER` -/
  | getOuter (p : ℕ)
  /-- `_OP_SETOUTER` -/
  | setOuter (p : ℕ) (v : V)
  /-- `_OP_CLOSE`, and the end of a frame -/
  | close (i : ℕ)
  /-- the growth of the stack in `EnterFrame` -/
  | grow (block n : ℕ)
  /-- the growth of the stack in `sq_reservestack`, which does not relocate the outers -/
  | reserve (block n : ℕ)

/-- What a program sees of a step -/
inductive Seen (V : Type)
  | nothing
  | value (v : V)
  | outer (p : ℕ)

/-- A step; `none` is an undefined one. -/
def SQVM.step (null : V) (vm : SQVM V) : Op V → Option (SQVM V × Seen V)
  | .get i => (vm.stack[i]?).map fun v => (vm, .value v)
  | .set i v =>
    if i < vm.stack.length then some ({ vm with stack := vm.stack.set i v }, .nothing) else none
  | .capture i =>
    if i < vm.stack.length then (vm.findOuter null i).map fun (vm, p) => (vm, .outer p) else none
  | .getOuter p => (vm.deref p).map fun v => (vm, .value v)
  | .setOuter p v => (vm.assign p v).map fun vm => (vm, .nothing)
  | .close i => (vm.closeOuters i).map fun vm => (vm, .nothing)
  | .grow block n => some ((vm.resize null block n).relocateOuters, .nothing)
  | .reserve block n => some (vm.resize null block n, .nothing)

/-- A VM with a stack of some size and nothing captured -/
def SQVM.init (null : V) (block size : ℕ) : SQVM V := ⟨block, List.replicate size null, [], []⟩

/-! ## Variables -/

/-- A variable is a register during one of its lives, which end when it is closed. -/
structure Variables (V : Type) where
  size : ℕ
  life : ℕ → ℕ
  value : ℕ → ℕ → V
  /-- what is captured, in the order of the first capture -/
  captured : List (ℕ × ℕ)

namespace Variables

/-- The registers from `i` on begin new lives, with the values that they have. -/
def close (a : Variables V) (i : ℕ) : Variables V where
  size := a.size
  life j := if i ≤ j ∧ j < a.size then a.life j + 1 else a.life j
  value j k := if i ≤ j ∧ j < a.size ∧ k = a.life j + 1 then a.value j (a.life j) else a.value j k
  captured := a.captured

def set (a : Variables V) (i k : ℕ) (v : V) : Variables V :=
  { a with value := fun j l => if j = i ∧ l = k then v else a.value j l }

/-- New registers with null -/
def grow (null : V) (a : Variables V) (n : ℕ) : Variables V where
  size := a.size + n
  life := a.life
  value j k := if a.size ≤ j then null else a.value j k
  captured := a.captured

/-- What a program is to see: each capture of a variable is the same one, and what is read is what
was written to the variable last. -/
def step (null : V) (a : Variables V) : Op V → Option (Variables V × Seen V)
  | .get i => if i < a.size then some (a, .value (a.value i (a.life i))) else none
  | .set i v => if i < a.size then some (a.set i (a.life i) v, .nothing) else none
  | .capture i =>
    if i < a.size then
      if (i, a.life i) ∈ a.captured then some (a, .outer (a.captured.idxOf (i, a.life i)))
      else some ({ a with captured := a.captured ++ [(i, a.life i)] }, .outer a.captured.length)
    else none
  | .getOuter p => (a.captured[p]?).map fun x => (a, .value (a.value x.1 x.2))
  | .setOuter p v => (a.captured[p]?).map fun x => (a.set x.1 x.2 v, .nothing)
  | .close i => some (a.close i, .nothing)
  | .grow _ n | .reserve _ n => some (a.grow null n, .nothing)

/-- Nothing captured and null everywhere -/
def init (null : V) (size : ℕ) : Variables V := ⟨size, fun _ => 0, fun _ _ => null, []⟩

end Variables

end Squirt.Outers
