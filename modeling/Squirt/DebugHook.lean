import Squirt.VmNesting

/-!
# The calls of the debug hook

`CallDebugHook` is called with 'c' when a function of the script is entered and with 'r' when
it is left. The functions here say which calls each function of the VM makes, in the order in
which it makes them; the calls for single lines are left out. While the hook runs,
`_debughook` is false and nothing is reported.
-/

namespace Squirt

/-- The type that `CallDebugHook` passes to the hook. -/
inductive HookType
  | c
  | r
  deriving DecidableEq

namespace SQVM

/-- `Return` reports the function of the current frame and those that have left it to
others by tail calls; so does `exception_trap`. -/
def returnHooks (vm : SQVM) : List HookType :=
  match vm.callsstack with
  | [] => []
  | ci :: _ => List.replicate ci.ncalls .r

/-- The end of `SQVM::StartCall` for a generator function. -/
def startGeneratorHooks (vm : SQVM) (func : SQFunctionProto) : List HookType :=
  match vm.createGenerator.bind fun vm' => vm'.yield vm.generators.length func.stacksize with
  | some (vm, true) => vm.returnHooks
  | _ => []

/-- `SQVM::StartCall` -/
def startCallHooks (vm : SQVM) (r : ℕ) (closure : SQClosure) (target : ℤ) (args : ℕ)
    (stackbase : ℤ) (tailcall : Bool) : List HookType :=
  match vm.placeArgs closure args stackbase with
  | some (vm, true) =>
    match (vm.placeEnv closure.env stackbase).map
      fun vm => vm.enterCall r closure target stackbase tailcall with
    | some (vm, true) =>
      .c :: if closure.function.bgenerator then vm.startGeneratorHooks closure.function else []
    | _ => []
  | _ => []

/-- `SQGenerator::Resume` -/
def resumeHooks (vm : SQVM) (g : ℕ) (dest : ℤ) : List HookType :=
  match vm.resume g dest with
  | some (_, true) => [.c]
  | _ => []

end SQVM

namespace Machine
namespace Config

/-- `SQVM::Execute` with `ET_CALL`, up to the loop. -/
def executeHooks (c : Config) (vm : SQVM) (r : ℕ) (nargs : ℕ) (stackbase : ℤ) : List HookType :=
  if vm.nnativecalls + 1 > MAX_NATIVE_CALLS then []
  else
    { vm with nnativecalls := vm.nnativecalls + 1 }.startCallHooks r (c.heap.closure r)
      (vm.top - nargs) nargs stackbase false

/-- `SQVM::Call` of a closure. -/
def callClosureHooks (c : Config) (vm : SQVM) (closure : SQObject) (nparams : ℕ)
    (stackbase : ℤ) : List HookType :=
  match closure with
  | .closure r => c.executeHooks vm r nparams stackbase
  | _ => []

/-- `SQVM::Call` -/
def callHooks (c : Config) (vm : SQVM) (closure : SQObject) (nparams : ℕ) (stackbase : ℤ) :
    List HookType :=
  match closure with
  | .clazz r =>
    let (vm', inst) := vm.createInstance
    match c.heap.constructor r with
    | .null => []
    | constr => (vm'.setSlot stackbase inst).elim [] fun vm' =>
        c.callClosureHooks vm' constr nparams stackbase
  | _ => c.callClosureHooks vm closure nparams stackbase

/-- A call out of C++ code. -/
def reenterHooks (c : Config) (vm : SQVM) (closure : SQObject) (args : List SQObject)
    (metamethod : Bool) : List HookType :=
  (vm.pushAll args).elim [] fun vm =>
    let vm := if metamethod then { vm with nmetamethodscall := vm.nmetamethodscall + 1 }
      else vm
    c.callHooks vm closure args.length (vm.top - args.length)

/-- `_OP_CALL` -/
def opCallHooks (c : Config) (arg0 : BitVec 8) (arg1 arg2 arg3 : ℕ) : List HookType :=
  let stkbase := c.vm.stackbase + arg2
  let start (vm : SQVM) (r : ℕ) (target : ℤ) : List HookType :=
    vm.startCallHooks r (c.heap.closure r) target arg3 stkbase false
  match c.vm.stk arg1 with
  | some (.closure r) => start c.vm r arg0.toInt
  | some (.clazz r) =>
    let (vm, inst) := c.vm.createInstance
    match c.heap.constructor r with
    | .closure r => ((vm.deliver arg0 inst).bind fun vm => vm.setSlot stkbase inst).elim []
        fun vm => start vm r (-1)
    | _ => []
  | some (.delegable type r) =>
    match c.heap.metacall r with
    | .null => []
    | closure => (c.vm.slots stkbase arg3).elim [] fun args =>
        c.reenterHooks c.vm closure (.delegable type r :: args) true
  | _ => []

/-- `_OP_TAILCALL` -/
def opTailcallHooks (c : Config) (arg0 : BitVec 8) (arg1 arg2 arg3 : ℕ) : List HookType :=
  match c.vm.stk arg1, c.vm.callsstack with
  | some (.closure r), ci :: _ =>
    let closure := c.heap.closure r
    if closure.function.bgenerator then c.opCallHooks arg0 arg1 arg2 arg3
    else ((c.vm.closeOuters c.vm.stackbase).moveArgs arg2 0 arg3).elim [] fun vm =>
      vm.startCallHooks r closure ci.target arg3 vm.stackbase true
  | _, _ => c.opCallHooks arg0 arg1 arg2 arg3

/-- `_OP_YIELD` -/
def opYieldHooks (c : Config) (arg2 : ℕ) : List HookType :=
  match c.vm.callsstack with
  | { generator := some g, .. } :: _ =>
    match c.vm.yield g arg2 with
    | some (vm, true) => vm.returnHooks
    | _ => []
  | _ => []

/-- `_OP_RESUME` -/
def opResumeHooks (c : Config) (arg0 arg1 : ℕ) : List HookType :=
  match c.vm.stk arg1 with
  | some (.generator g) => c.vm.resumeHooks g (c.vm.stackbase + arg0)
  | _ => []

/-- `_OP_FOREACH` -/
def opForeachHooks (c : Config) (arg0 arg2 : ℕ) : List HookType :=
  match c.vm.stk arg0 with
  | some (.generator g) =>
    match (c.vm.generators[g]?).map SQGenerator.state, c.vm.stk (arg2 + 2) with
    | some .suspended, some o4 =>
      ((c.vm.setStk arg2 (nextIdx o4)).bind fun vm => vm.setStk (arg2 + 2) (nextIdx o4)).elim []
        fun vm => vm.resumeHooks g (vm.stackbase + arg2 + 1)
    | _, _ => []
  | _ => []

/-- One instruction of the loop. -/
def instrHooks (c : Config) : Instr → List HookType
  | .call arg0 arg1 arg2 arg3 => c.opCallHooks arg0 arg1 arg2 arg3
  | .tailcall arg0 arg1 arg2 arg3 => c.opTailcallHooks arg0 arg1 arg2 arg3
  | .ret _ _ => c.vm.returnHooks
  | .yield _ _ arg2 => c.opYieldHooks arg2
  | .resume arg0 arg1 => c.opResumeHooks arg0 arg1
  | .foreach arg0 arg2 => c.opForeachHooks arg0 arg2
  | _ => []

/-- One round of the loop of `exception_trap`: a frame that catches the exception is not
left. -/
def unwindHooks (c : Config) : List HookType :=
  if ciTraps c.vm > 0 then [] else c.vm.returnHooks

/-- `sq_resume` -/
def sqResumeHooks (c : Config) : List HookType :=
  match c.vm.slot (c.vm.top - 1) with
  | some (.generator g) => (c.vm.push .null).elim [] fun vm =>
      if vm.nnativecalls + 1 > MAX_NATIVE_CALLS then []
      else { vm with nnativecalls := vm.nnativecalls + 1 }.resumeHooks g (vm.top - 1)
  | _ => []

/-- A call of the API. -/
def apiHooks (c : Config) : Api → List HookType
  | .call params _ =>
    if c.vm.stackbase + params < c.vm.top then
      (c.vm.slot (c.vm.top - (params + 1))).elim [] fun closure =>
        c.callHooks c.vm closure params (c.vm.top - params)
    else []
  | .resume _ => if c.vm.stackbase < c.vm.top then c.sqResumeHooks else []
  | _ => []

/-- The calls of the hook in one step. Native functions and `sq_wakeupvm` make none. -/
def hookCalls (c : Config) : Event → List HookType
  | .instr i => match c.active with
    | a :: _ => match a.kind, a.pc with
      | .execute, .loop => c.instrHooks i
      | _, _ => []
    | [] => []
  | .api a => if c.inNative then c.apiHooks a else []
  | .reenter closure args metamethod =>
    if c.canReenter then c.reenterHooks c.vm closure args metamethod else []
  | .unwind => match c.active with
    | a :: _ => match a.pc with
      | .trap _ _ => c.unwindHooks
      | _ => []
    | [] => []
  | _ => []

end Config

/-- The invocations and the frames that `CallDebugHook` has found. -/
structure HookRun where
  invocations : ℕ
  frames : ℕ
  deriving DecidableEq

/-- A VM with a debug hook. -/
structure Hooked where
  config : Config
  /-- the calls of the hook so far -/
  calls : List HookType
  /-- set while `CallDebugHook` runs the hook: then `_debughook` is false -/
  running : Option HookRun

inductive HookedEvent
  | vm (e : Event)
  /-- `CallDebugHook` calls the closure of the hook, or the native hook calls one -/
  | hook (closure : SQObject) (args : List SQObject)

namespace Hooked

/-- An invocation of `Execute` runs. -/
def executing (c : Config) : Bool := (c.active.head?.map Activation.entered).getD false

/-- The hook has returned when the invocations are those that it found. -/
def step (s : Hooked) : HookedEvent → Option Hooked
  | .vm e => (s.config.step e).map fun c =>
    { config := c
      calls := if s.running.isNone then s.calls ++ s.config.hookCalls e else s.calls
      running := s.running.filter fun h => h.invocations < c.active.length }
  | .hook closure args =>
    if s.running.isNone ∧ executing s.config then
      (s.config.step (.reenter closure args false)).map fun c => { s with
        config := c
        running := some ⟨s.config.active.length, s.config.vm.callsstack.length⟩ }
    else some s

/-- The hook is there before anything runs. -/
def init (stacksize : ℕ) (callstackdata : ℕ → ℕ) (heap : Heap) : Hooked where
  config := Config.init stacksize callstackdata heap
  calls := []
  running := none

/-- The call stack without the frames of a running hook. -/
def frames (s : Hooked) : List CallInfo :=
  match s.running with
  | none => s.config.vm.callsstack
  | some h => s.config.vm.callsstack.drop (s.config.vm.callsstack.length - h.frames)

end Hooked
end Machine
end Squirt
