import Squirt.VmObjects

/-!
# The stack and the call frames of a VM

`none` is an access outside `_stack`. A `Bool` is what the C++ function returns. The calls
of the debug hook are not part of these functions.
-/

namespace Squirt

/-- `_callsstack` lists its frames from the current one, `ci`, down to the first; so does
`_etraps`. `_openouters` lists the slots its outers point at. -/
structure SQVM where
  stack : List SQObject
  top : ℤ
  stackbase : ℤ
  openouters : List ℤ
  callsstack : List CallInfo
  alloccallsstacksize : ℕ
  /-- how many times `GrowCallStack` has run -/
  grows : ℕ
  /-- the block `_callsstack` is in after it has grown that many times -/
  callstackdata : ℕ → ℕ
  etraps : List SQExceptionTrap
  nnativecalls : ℕ
  nmetamethodscall : ℕ
  lasterror : SQObject
  suspended : Bool
  suspendedTarget : ℤ
  suspendedRoot : Bool
  suspendedTraps : ℤ
  generators : List SQGenerator
  arrays : List (List SQObject)
  ninstances : ℕ

namespace SQVM

def init (stacksize : ℕ) (callstackdata : ℕ → ℕ) : SQVM where
  stack := List.replicate stacksize .null
  top := 0
  stackbase := 0
  openouters := []
  callsstack := []
  alloccallsstacksize := 4
  grows := 0
  callstackdata := callstackdata
  etraps := []
  nnativecalls := 0
  nmetamethodscall := 0
  lasterror := .null
  suspended := false
  suspendedTarget := -1
  suspendedRoot := false
  suspendedTraps := -1
  generators := []
  arrays := []
  ninstances := 0

/-- `_stack._vals[i]` -/
def slot (vm : SQVM) (i : ℤ) : Option SQObject :=
  if 0 ≤ i then vm.stack[i.toNat]? else none

/-- `_stack._vals[i] = o` -/
def setSlot (vm : SQVM) (i : ℤ) (o : SQObject) : Option SQVM :=
  if 0 ≤ i ∧ i < vm.stack.length then
    some { vm with stack := vm.stack.set i.toNat o }
  else none

def stk (vm : SQVM) (a : ℤ) : Option SQObject := vm.slot (vm.stackbase + a)

/-- `STK(a) = o` -/
def setStk (vm : SQVM) (a : ℤ) (o : SQObject) : Option SQVM :=
  vm.setSlot (vm.stackbase + a) o

/-- The slots from `i` on. -/
def setSlots (vm : SQVM) (i : ℤ) : List SQObject → Option SQVM
  | [] => some vm
  | o :: os => (vm.setSlot i o).bind fun vm => setSlots vm (i + 1) os

def slots (vm : SQVM) (i : ℤ) : ℕ → Option (List SQObject)
  | 0 => some []
  | n + 1 => (vm.slot i).bind fun o => (slots vm (i + 1) n).map (o :: ·)

/-- `while (last_top >= _top) _stack._vals[last_top--].Null()`, `n` times. -/
def nullDown (vm : SQVM) (last_top : ℤ) : ℕ → Option SQVM
  | 0 => some vm
  | n + 1 => (vm.setSlot last_top .null).bind fun vm => nullDown vm (last_top - 1) n

def push (vm : SQVM) (o : SQObject) : Option SQVM :=
  (vm.setSlot vm.top o).map fun vm => { vm with top := vm.top + 1 }

def pushAll (vm : SQVM) : List SQObject → Option SQVM
  | [] => some vm
  | o :: os => (vm.push o).bind fun vm => pushAll vm os

def pop (vm : SQVM) : ℕ → Option SQVM
  | 0 => some vm
  | n + 1 => ({ vm with top := vm.top - 1 }.setSlot (vm.top - 1) .null).bind fun vm => pop vm n

def raiseError (vm : SQVM) (s : String) : SQVM := { vm with lasterror := .string s }

/-- `ci`, as the block of the call stack and the index in it. -/
def ciPtr (vm : SQVM) : Option (ℕ × ℕ) :=
  match vm.callsstack with
  | [] => none
  | _ :: rest => some (vm.callstackdata vm.grows, rest.length)

/-- A change of `*ci`. -/
def setCi (vm : SQVM) (f : CallInfo → CallInfo) : SQVM :=
  { vm with callsstack := vm.callsstack.modifyHead f }

/-- `SQVM::GrowCallStack`, when the call stack is full. -/
def growCallStack (vm : SQVM) : SQVM :=
  if vm.callsstack.length = vm.alloccallsstacksize then
    { vm with alloccallsstacksize := vm.alloccallsstacksize * 2, grows := vm.grows + 1 }
  else vm

/-- The call record `SQVM::EnterFrame` sets up. -/
def newCallInfo (vm : SQVM) (newbase : ℤ) : CallInfo where
  closure := .null
  generator := none
  etraps := 0
  prevstkbase := newbase - vm.stackbase
  prevtop := vm.top - vm.stackbase
  target := 0
  ncalls := 1
  root := false

/-- `SQVM::EnterFrame` up to the check of the stack size. -/
def pushFrame (vm : SQVM) (newbase newtop : ℤ) (tailcall : Bool) : SQVM :=
  let vm := if tailcall then vm.setCi fun ci => { ci with ncalls := ci.ncalls + 1 }
    else { vm.growCallStack with callsstack := vm.newCallInfo newbase :: vm.callsstack }
  { vm with stackbase := newbase, top := newtop }

def enterFrame (vm : SQVM) (newbase newtop : ℤ) (tailcall : Bool) : SQVM × Bool :=
  let vm := vm.pushFrame newbase newtop tailcall
  if newtop + MIN_STACK_OVERHEAD > vm.stack.length then
    if vm.nmetamethodscall ≠ 0 then
      (vm.raiseError "stack overflow, cannot resize stack while in  a metamethod", false)
    else
      ({ vm with stack := vm.stack ++ List.replicate (4 * MIN_STACK_OVERHEAD) .null }, true)
  else (vm, true)

/-- `SQVM::CloseOuters`: the open outers at `stackindex` and above take their values
along. -/
def closeOuters (vm : SQVM) (stackindex : ℤ) : SQVM :=
  { vm with openouters := vm.openouters.dropWhile (stackindex ≤ ·) }

def findOuter (vm : SQVM) (stackindex : ℤ) : SQVM :=
  let above := vm.openouters.takeWhile (stackindex < ·)
  let below := vm.openouters.dropWhile (stackindex < ·)
  if below.head? = some stackindex then vm
  else { vm with openouters := above ++ stackindex :: below }

def leaveFrame (vm : SQVM) : Option SQVM :=
  match vm.callsstack with
  | [] => none
  | ci :: rest =>
    let stackbase := vm.stackbase - ci.prevstkbase
    let top := stackbase + ci.prevtop
    ({ vm with callsstack := rest, stackbase := stackbase, top := top }.closeOuters
      vm.stackbase).nullDown vm.top (vm.top - top + 1).toNat

/-- `SQVM::Return`: whether the frame was a root, and then the value for `retval`. -/
def Return (vm : SQVM) (arg0 arg1 : ℤ) : Option (SQVM × Bool × SQObject) :=
  match vm.callsstack with
  | [] => none
  | ci :: _ =>
    let callerbase := vm.stackbase - ci.prevstkbase
    let value := if arg0 ≠ 0xFF then vm.slot (vm.stackbase + arg1) else some .null
    if ci.root then
      value.bind fun v => vm.leaveFrame.map (·, true, v)
    else if ci.target = -1 then
      vm.leaveFrame.map (·, false, .null)
    else
      value.bind fun v => (vm.setSlot (callerbase + ci.target) v).bind fun vm =>
        vm.leaveFrame.map (·, false, .null)

/-- The loop of `SQVM::StartCall` that moves the variable arguments into an array. -/
def packVarArgs (vm : SQVM) (pbase : ℤ) : ℕ → Option (SQVM × List SQObject)
  | 0 => some (vm, [])
  | n + 1 => (vm.slot pbase).bind fun o => (vm.setSlot pbase .null).bind fun vm =>
      (packVarArgs vm (pbase + 1) n).map fun (vm, os) => (vm, o :: os)

/-- `SQArray::Create` with its values. -/
def createArray (vm : SQVM) (values : List SQObject) : SQVM × SQObject :=
  ({ vm with arrays := vm.arrays ++ [values] }, .array vm.arrays.length)

/-- The part of `SQVM::StartCall` that checks and completes the arguments. -/
def placeArgs (vm : SQVM) (closure : SQClosure) (nargs : ℕ) (stackbase : ℤ) :
    Option (SQVM × Bool) :=
  let func := closure.function
  if func.varparams then
    let paramssize := func.nparameters - 1
    if nargs < paramssize then
      some (vm.raiseError "wrong number of parameters", false)
    else
      (vm.packVarArgs (stackbase + paramssize) (nargs - paramssize)).bind fun (vm, values) =>
        let (vm, arr) := vm.createArray values
        (vm.setSlot (stackbase + paramssize) arr).map (·, true)
  else if func.nparameters ≠ nargs then
    let diff := func.nparameters - nargs
    if func.ndefaultparams ≠ 0 ∧ nargs < func.nparameters ∧ diff ≤ func.ndefaultparams then
      (vm.setSlots (stackbase + nargs)
        (closure.defaultparams.drop (func.ndefaultparams - diff))).map (·, true)
    else
      some (vm.raiseError "wrong number of parameters", false)
  else some (vm, true)

/-- `if(closure->_env) _stack._vals[stackbase] = closure->_env->_obj` -/
def placeEnv (vm : SQVM) (env : Option SQObject) (stackbase : ℤ) : Option SQVM :=
  match env with
  | some o => vm.setSlot stackbase o
  | none => some vm

/-- `SQGenerator::Yield` of the current frame into generator `g`. -/
def yield (vm : SQVM) (g : ℕ) (target : ℕ) : Option (SQVM × Bool) :=
  match vm.generators[g]?, vm.callsstack with
  | some gen, ci :: _ =>
    match gen.state with
    | .suspended => some (vm.raiseError "internal vm error, yielding dead generator", false)
    | .dead => some (vm.raiseError "internal vm error, yielding a dead generator", false)
    | .running =>
      let size := (vm.top - vm.stackbase).toNat
      (vm.slots vm.stackbase size).bind fun frame =>
        (vm.setSlots vm.stackbase (List.replicate size .null)).map fun vm =>
          let stack := (List.range size).map fun n =>
            if n = 0 ∨ n < target then frame.getD n .null else gen.stack.getD n .null
          ({ vm with
              etraps := vm.etraps.drop ci.etraps
              generators := vm.generators.set g
                { state := .suspended
                  stack := stack
                  ci := { ci with generator := none }
                  etraps := (vm.etraps.take ci.etraps).reverse ++ gen.etraps } }, true)
  | _, _ => none

/-- The frame `SQVM::StartCall` enters when the arguments are in place. -/
def enterCall (vm : SQVM) (r : ℕ) (closure : SQClosure) (target : ℤ) (stackbase : ℤ)
    (tailcall : Bool) : SQVM × Bool :=
  let newtop := stackbase + closure.function.stacksize
  match vm.enterFrame stackbase newtop tailcall with
  | (vm, false) => (vm, false)
  | (vm, true) => (vm.setCi fun ci => { ci with closure := .closure r, target := target }, true)

/-- `SQGenerator::Create` for the closure of the current frame. -/
def createGenerator (vm : SQVM) : Option SQVM :=
  vm.callsstack.head?.map fun ci => { vm with
    generators := vm.generators ++ [{ state := .running, stack := [], ci := ci, etraps := [] }] }

/-- The end of `SQVM::StartCall` for a generator function. -/
def startGenerator (vm : SQVM) (func : SQFunctionProto) (target : ℤ) : Option (SQVM × Bool) :=
  let g := vm.generators.length
  vm.createGenerator.bind fun vm => (vm.yield g func.stacksize).bind fun (vm, ok) =>
    if !ok then some (vm, false)
    else (vm.Return 1 target).bind fun (vm, _, _) =>
      (vm.setStk target (.generator g)).map (·, true)

def startCall (vm : SQVM) (r : ℕ) (closure : SQClosure) (target : ℤ) (args : ℕ)
    (stackbase : ℤ) (tailcall : Bool) : Option (SQVM × Bool) :=
  (vm.placeArgs closure args stackbase).bind fun (vm, ok) =>
    if !ok then some (vm, false)
    else (vm.placeEnv closure.env stackbase).bind fun vm =>
      match vm.enterCall r closure target stackbase tailcall with
      | (vm, false) => some (vm, false)
      | (vm, true) =>
        if closure.function.bgenerator then vm.startGenerator closure.function target
        else some (vm, true)

/-- `SQGenerator::Resume` of generator `g`; `dest` is the slot for the value. -/
def resume (vm : SQVM) (g : ℕ) (dest : ℤ) : Option (SQVM × Bool) :=
  match vm.generators[g]? with
  | none => none
  | some gen =>
    match gen.state with
    | .dead => some (vm.raiseError "resuming dead generator", false)
    | .running => some (vm.raiseError "resuming active generator", false)
    | .suspended =>
      let target := dest - vm.stackbase
      match vm.enterFrame vm.top (vm.top + gen.stack.length) false with
      | (vm, false) => some (vm, false)
      | (vm, true) =>
        let vm := vm.setCi fun ci => { ci with
          generator := some g
          target := target
          closure := gen.ci.closure
          ncalls := gen.ci.ncalls
          etraps := gen.ci.etraps
          root := gen.ci.root }
        let vm := { vm with
          etraps := (gen.etraps.take gen.ci.etraps).reverse ++ vm.etraps
          generators := vm.generators.set g { gen with
            state := .running
            stack := gen.stack.take 1 ++ List.replicate (gen.stack.length - 1) SQObject.null
            etraps := gen.etraps.drop gen.ci.etraps } }
        (vm.setSlots vm.stackbase gen.stack).map (·, true)

def kill (vm : SQVM) (g : ℕ) : SQVM :=
  { vm with generators := vm.generators.modify g fun gen =>
      { gen with state := .dead, stack := [] } }

/-- `ci->_generator->Kill()` when there is one. -/
def killCi (vm : SQVM) : SQVM :=
  match vm.callsstack with
  | { generator := some g, .. } :: _ => vm.kill g
  | _ => vm

/-- `SQVM::CallNative` takes `nargs` arguments. -/
def nparamsOk (n : SQNativeClosure) (nargs : ℤ) : Bool :=
  !(n.nparamscheck ≠ 0 ∧ ((n.nparamscheck > 0 ∧ n.nparamscheck ≠ nargs) ∨
    (n.nparamscheck < 0 ∧ nargs < -n.nparamscheck)))

/-- Each argument has a type of its mask. -/
def typesOk (args : List SQObject) (typecheck : List (Option ℕ)) : Bool :=
  (args.zip typecheck).all fun (o, tc) => match tc with
    | none => true
    | some mask => o.type &&& mask ≠ 0

/-- `SQVM::CallNative` up to the call of the native function. -/
def enterNative (vm : SQVM) (r : ℕ) (n : SQNativeClosure) (nargs : ℕ) (newbase : ℤ) :
    Option (SQVM × Bool) :=
  let newtop := newbase + nargs + n.outervalues.length
  if vm.nnativecalls + 1 > MAX_NATIVE_CALLS then
    some (vm.raiseError "Native stack overflow", false)
  else if !nparamsOk n nargs then
    some (vm.raiseError "wrong number of parameters", false)
  else
    (vm.slots newbase (min nargs n.typecheck.length)).bind fun args =>
      if !typesOk args n.typecheck then
        some (vm.raiseError "parameter %d has an invalid type '%s' ; expected: '%s'", false)
      else
        match vm.enterFrame newbase newtop false with
        | (vm, false) => some (vm, false)
        | (vm, true) =>
          let vm := vm.setCi fun ci => { ci with closure := .nativeclosure r }
          (vm.setSlots (newbase + nargs) n.outervalues).bind fun vm =>
            (vm.placeEnv n.env newbase).map fun vm =>
              ({ vm with nnativecalls := vm.nnativecalls + 1 }, true)

/-- `SQVM::CreateClassInstance` -/
def createInstance (vm : SQVM) : SQVM × SQObject :=
  ({ vm with ninstances := vm.ninstances + 1 }, .delegable OT_INSTANCE vm.ninstances)

/-- `if(sarg0 != -1) STK(arg0) = o` -/
def deliver (vm : SQVM) (arg0 : BitVec 8) (o : SQObject) : Option SQVM :=
  if arg0.toInt ≠ -1 then vm.setStk arg0.toNat o else some vm

/-- `for (i = 0; i < n; i++) STK(i) = STK(arg2 + i)`, from `i` on. -/
def moveArgs (vm : SQVM) (arg2 : ℕ) (i : ℕ) : ℕ → Option SQVM
  | 0 => some vm
  | n + 1 => (vm.stk (arg2 + i)).bind fun o => (vm.setStk i o).bind fun vm =>
      moveArgs vm arg2 (i + 1) n

def pushTrap (vm : SQVM) (extarget : ℕ) : SQVM :=
  let et : SQExceptionTrap :=
    { stackbase := vm.stackbase, stacksize := vm.top, extarget := extarget }
  { vm with etraps := et :: vm.etraps }.setCi fun ci => { ci with etraps := ci.etraps + 1 }

/-- `_OP_POPTRAP`: `_etraps.pop_back(); ci->_etraps--`, `n` times. -/
def popTraps (vm : SQVM) : ℕ → Option SQVM
  | 0 => some vm
  | n + 1 => match vm.etraps with
    | [] => none
    | _ :: etraps => popTraps
        ({ vm with etraps := etraps }.setCi fun ci => { ci with etraps := ci.etraps - 1 }) n

def reservestack (vm : SQVM) (nsize : ℕ) : SQVM :=
  if vm.top + nsize > vm.stack.length then
    if vm.nmetamethodscall ≠ 0 then
      vm.raiseError "cannot resize stack while in  a metamethod"
    else
      { vm with stack := vm.stack ++
          List.replicate (vm.top + nsize - vm.stack.length).toNat SQObject.null }
  else vm

end SQVM
end Squirt
