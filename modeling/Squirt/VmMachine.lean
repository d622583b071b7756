import Squirt.VmFrames
import Squirt.GuardedRuns

/-!
# Execute, CallNative and their callers as one machine

A configuration holds the VM and the C++ functions that are active on it: invocations of
`SQVM::Execute` and native functions run by `SQVM::CallNative`, each waiting for the one
above. An event is the next thing the topmost of them does; with none active it is what
the host does through the API. Which instruction comes next is left open: an instruction
that only computes is a sequence of register writes and of calls of metamethods. The debug
hook is called between two instructions.
-/

namespace Squirt

/-- What a C++ invocation finds of the frames. -/
structure Snapshot where
  callsstack : List CallInfo
  stackbase : ℤ
  top : ℤ
  etraps : List SQExceptionTrap
  nnativecalls : ℕ
  deriving DecidableEq

def SQVM.snapshot (vm : SQVM) : Snapshot where
  callsstack := vm.callsstack
  stackbase := vm.stackbase
  top := vm.top
  etraps := vm.etraps
  nnativecalls := vm.nnativecalls

namespace Machine

/-- Where a C++ invocation stands. -/
inductive Pc
  /-- in the loop of `Execute`, or in the native function -/
  | loop
  /-- in the loop of `exception_trap` -/
  | trap (currerror : SQObject) (last_top : ℤ)
  /-- `StartCall` has failed in `Execute(…, ET_CALL)` -/
  | failed
  /-- about to return -/
  | done (ok : Bool) (res : SQObject) (suspend : Bool)

/-- What the caller does with the result. -/
inductive Cont
  /-- `_OP_CALL` of a native closure -/
  | opCall (arg0 : BitVec 8)
  /-- `_OP_CALL` of a class with a native constructor -/
  | opConstruct
  /-- a call out of the C++ code with pushed arguments; `arg0` when it is the `_call`
  metamethod of `_OP_CALL` -/
  | reenter (nparams : ℕ) (metamethod : Bool) (arg0 : Option (BitVec 8))
  | sqCall (params : ℕ) (retval : Bool)
  | sqResume (retval : Bool)
  | sqWakeup (retval : Bool)

inductive Kind
  | execute
  | native
  /-- `SQVM::Call` of something that it does not call -/
  | plain
  deriving DecidableEq

/-- An invocation; `entry` is what it found. -/
structure Activation where
  kind : Kind
  pc : Pc
  traps : ℤ
  cont : Cont
  /-- the instance, when `SQVM::Call` runs the constructor of a class -/
  inst : Option SQObject
  entry : Snapshot

/-- `suspendedEntry` is what the invocation that `_suspended` the VM found. -/
structure Config where
  vm : SQVM
  heap : Heap
  active : List Activation
  suspendedEntry : Snapshot

/-- Instructions of the loop of `Execute` as far as frames are concerned. -/
inductive Instr
  /-- any instruction that stores a value in a register -/
  | write (reg : ℕ) (o : SQObject)
  /-- `_OP_SETOUTER` to the open outer with that number -/
  | setOuter (n : ℕ) (o : SQObject)
  /-- the capture of a local by `_OP_CLOSURE` -/
  | capture (reg : ℕ)
  | close (arg1 : ℕ)
  | call (arg0 : BitVec 8) (arg1 arg2 arg3 : ℕ)
  | tailcall (arg0 : BitVec 8) (arg1 arg2 arg3 : ℕ)
  | ret (arg0 arg1 : ℕ)
  | yield (arg0 arg1 arg2 : ℕ)
  | resume (arg0 arg1 : ℕ)
  /-- `_OP_FOREACH` over a generator -/
  | foreach (arg0 arg2 : ℕ)
  | pushTrap (arg0 : ℕ)
  | popTrap (arg0 : ℕ)
  /-- any instruction that fails -/
  | throw (o : SQObject)

/-- What a native function or the host does through the API. -/
inductive Api
  | push (o : SQObject)
  | pop (n : ℕ)
  | set (i : ℕ) (o : SQObject)
  | reservestack (nsize : ℕ)
  | call (params : ℕ) (retval : Bool)
  | resume (retval : Bool)
  | wakeupvm (wakeupret retval throwerror : Bool)

/-- The value a native function returns. -/
inductive NativeResult
  /-- the value of `sq_suspendvm` -/
  | suspend
  | fail
  | zero
  | value

inductive Event
  | instr (i : Instr)
  | api (a : Api)
  | nativeRet (r : NativeResult)
  /-- a call of a metamethod, of the error handler or of the debug hook -/
  | reenter (closure : SQObject) (args : List SQObject) (metamethod : Bool)
  /-- the C++ function goes on -/
  | cont
  /-- one round of the loop of `exception_trap` -/
  | unwind
  /-- classes and delegates change, closures are created -/
  | objects (heap : Heap)
  /-- another VM works on a generator that does not run here -/
  | foreign (g : ℕ) (gen : SQGenerator)

namespace Config

/-- `AutoDec` and the return of an `Execute`. -/
def finish (c : Config) (vm : SQVM) (a : Activation) (rest : List Activation) (ok : Bool)
    (res : SQObject) : Config :=
  { c with
    vm := { vm with nnativecalls := vm.nnativecalls - 1 }
    active := { a with pc := .done ok res false } :: rest }

def goto (c : Config) (vm : SQVM) (a : Activation) (rest : List Activation) (pc : Pc) :
    Config :=
  { c with vm := vm, active := { a with pc := pc } :: rest }

def throw (c : Config) (vm : SQVM) (a : Activation) (rest : List Activation) : Config :=
  c.goto vm a rest (.trap vm.lasterror vm.top)

/-- An invocation that starts now, in the state `entry`. -/
def enter (c : Config) (vm : SQVM) (kind : Kind) (pc : Pc) (traps : ℤ) (cont : Cont)
    (inst : Option SQObject) (entry : Snapshot) : Config :=
  { c with
    vm := vm
    active := { kind, pc, traps, cont, inst, entry } :: c.active }

/-- `SQVM::Execute` with `ET_CALL`, up to the loop. -/
def execute (c : Config) (vm : SQVM) (r : ℕ) (nargs : ℕ) (stackbase : ℤ) (cont : Cont)
    (inst : Option SQObject) (entry : Snapshot) : Option Config :=
  if vm.nnativecalls + 1 > MAX_NATIVE_CALLS then
    some (c.enter (vm.raiseError "Native stack overflow") .execute (.done false .null false) 0
      cont inst entry)
  else
    let prevci := vm.ciPtr
    let vm := { vm with nnativecalls := vm.nnativecalls + 1 }
    (vm.startCall r (c.heap.closure r) (vm.top - nargs) nargs stackbase false).bind
      fun (vm, ok) =>
        if !ok then some (c.enter vm .execute .failed 0 cont inst entry)
        else if vm.ciPtr = prevci then
          (vm.stk (vm.top - nargs)).map fun res =>
            c.enter { vm with nnativecalls := vm.nnativecalls - 1 } .execute
              (.done true res false) 0 cont inst entry
        else if vm.callsstack = [] then none
        else some (c.enter (vm.setCi fun ci => { ci with root := true }) .execute .loop 0
          cont inst entry)

/-- `SQVM::CallNative` as `SQVM::Call` uses it. -/
def callNative (c : Config) (vm : SQVM) (r : ℕ) (nargs : ℕ) (stackbase : ℤ) (cont : Cont)
    (inst : Option SQObject) (entry : Snapshot) : Option Config :=
  (vm.enterNative r (c.heap.nativeclosure r) nargs stackbase).map fun (vm, ok) =>
    c.enter vm .native (if ok then .loop else .done false .null false) 0 cont inst entry

/-- `SQVM::Call` of a closure. -/
def callClosure (c : Config) (vm : SQVM) (closure : SQObject) (nparams : ℕ) (stackbase : ℤ)
    (cont : Cont) (inst : Option SQObject) (entry : Snapshot) : Option Config :=
  match closure with
  | .closure r => c.execute vm r nparams stackbase cont inst entry
  | .nativeclosure r => c.callNative vm r nparams stackbase cont inst entry
  | _ => some (c.enter vm .plain (.done false .null false) 0 cont inst entry)

def call (c : Config) (vm : SQVM) (closure : SQObject) (nparams : ℕ) (stackbase : ℤ)
    (cont : Cont) : Option Config :=
  match closure with
  | .clazz r =>
    let (vm', inst) := vm.createInstance
    match c.heap.constructor r with
    | .null => some (c.enter vm' .plain (.done true inst false) 0 cont none vm.snapshot)
    | constr => (vm'.setSlot stackbase inst).bind fun vm' =>
        c.callClosure vm' constr nparams stackbase cont (some inst) vm.snapshot
  | _ => c.callClosure vm closure nparams stackbase cont none vm.snapshot

/-- A call out of C++ code: push the arguments and call; `CallMetaMethod` counts
itself. -/
def reenter (c : Config) (vm : SQVM) (closure : SQObject) (args : List SQObject)
    (metamethod : Bool) (arg0 : Option (BitVec 8)) : Option Config :=
  (vm.pushAll args).bind fun vm =>
    let vm := if metamethod then { vm with nmetamethodscall := vm.nmetamethodscall + 1 }
      else vm
    c.call vm closure args.length (vm.top - args.length) (.reenter args.length metamethod arg0)

def opCall (c : Config) (a : Activation) (rest : List Activation) (arg0 : BitVec 8)
    (arg1 arg2 arg3 : ℕ) : Option Config :=
  let vm := c.vm
  let stkbase := vm.stackbase + arg2
  let start (vm : SQVM) (r : ℕ) (target : ℤ) : Option Config :=
    (vm.startCall r (c.heap.closure r) target arg3 stkbase false).map fun (vm, ok) =>
      if ok then c.goto vm a rest .loop else c.throw vm a rest
  let native (vm : SQVM) (r : ℕ) (cont : Cont) : Option Config :=
    (vm.enterNative r (c.heap.nativeclosure r) arg3 stkbase).map fun (vm', ok) =>
      if ok then c.enter vm' .native .loop 0 cont none vm.snapshot
      else c.throw vm' a rest
  (vm.stk arg1).bind fun clo =>
    match clo with
    | .closure r => start vm r arg0.toInt
    | .nativeclosure r => native vm r (.opCall arg0)
    | .clazz r =>
      let (vm, inst) := vm.createInstance
      (vm.deliver arg0 inst).bind fun vm =>
        match c.heap.constructor r with
        | .closure r => (vm.setSlot stkbase inst).bind fun vm => start vm r (-1)
        | .nativeclosure r => (vm.setSlot stkbase inst).bind fun vm =>
            native vm r .opConstruct
        | _ => some (c.goto vm a rest .loop)
    | .delegable _ r =>
      match c.heap.metacall r with
      | .null => some (c.throw (vm.raiseError "attempt to call '%s'") a rest)
      | closure => (vm.slots stkbase arg3).bind fun args =>
          c.reenter vm closure (clo :: args) true (some arg0)
    | _ => some (c.throw (vm.raiseError "attempt to call '%s'") a rest)

def opTailcall (c : Config) (a : Activation) (rest : List Activation) (arg0 : BitVec 8)
    (arg1 arg2 arg3 : ℕ) : Option Config :=
  (c.vm.stk arg1).bind fun t =>
    match t, c.vm.callsstack with
    | .closure r, ci :: _ =>
      let closure := c.heap.closure r
      if closure.function.bgenerator then c.opCall a rest arg0 arg1 arg2 arg3
      else ((c.vm.closeOuters c.vm.stackbase).moveArgs arg2 0 arg3).bind fun vm =>
        (vm.startCall r closure ci.target arg3 vm.stackbase true).map fun (vm, ok) =>
          if ok then c.goto vm a rest .loop else c.throw vm a rest
    | _, _ => c.opCall a rest arg0 arg1 arg2 arg3

/-- After `Return`: the `Execute` of a root frame returns. -/
def returned (c : Config) (a : Activation) (rest : List Activation)
    (r : SQVM × Bool × SQObject) : Config :=
  if r.2.1 then c.finish r.1 a rest true r.2.2 else c.goto r.1 a rest .loop

def opReturn (c : Config) (a : Activation) (rest : List Activation) (arg0 arg1 : ℕ) :
    Option Config :=
  (c.vm.killCi.Return arg0 arg1).map (c.returned a rest)

def opYield (c : Config) (a : Activation) (rest : List Activation) (arg0 arg1 arg2 : ℕ) :
    Option Config :=
  match c.vm.callsstack with
  | { generator := some g, etraps := etraps, .. } :: _ =>
    (if arg1 ≠ MAX_FUNC_STACKSIZE then c.vm.stk arg1 else some .null).bind fun temp =>
      (c.vm.yield g arg2).bind fun (vm, ok) =>
      if !ok then some (c.throw vm a rest)
      else
        let a := { a with traps := a.traps - etraps }
        (if arg1 ≠ MAX_FUNC_STACKSIZE then vm.setStk arg1 temp else some vm).bind fun vm =>
          (vm.Return arg0 arg1).map (c.returned a rest)
  | _ =>
    let vm := c.vm.raiseError "trying to yield a '%s',only genenerator can be yielded"
    some (c.throw vm a rest)

/-- `ci->_etraps` -/
def ciTraps (vm : SQVM) : ℕ := (vm.callsstack.head?.map CallInfo.etraps).getD 0

def opResume (c : Config) (a : Activation) (rest : List Activation) (arg0 arg1 : ℕ) :
    Option Config :=
  (c.vm.stk arg1).bind fun
    | .generator g => (c.vm.resume g (c.vm.stackbase + arg0)).map fun (vm, ok) =>
        if ok then c.goto vm { a with traps := a.traps + ciTraps vm } rest .loop
        else c.throw vm a rest
    | _ =>
      let vm := c.vm.raiseError "trying to resume a '%s',only genenerator can be resumed"
      some (c.throw vm a rest)

/-- The position of a `foreach` over a generator after `o4`. -/
def nextIdx : SQObject → SQObject
  | .data 0x2 n => .data 0x2 (n + 1)
  | _ => .data 0x2 0

/-- `_OP_FOREACH` when `STK(arg0)` is a generator: the result of `Resume` is ignored. -/
def opForeach (c : Config) (a : Activation) (rest : List Activation) (arg0 arg2 : ℕ) :
    Option Config :=
  (c.vm.stk arg0).bind fun
    | .generator g =>
      match (c.vm.generators[g]?).map SQGenerator.state with
      | none => none
      | some .dead => some c
      | some .running => some (c.throw (c.vm.raiseError "cannot iterate %s") a rest)
      | some .suspended => (c.vm.stk (arg2 + 2)).bind fun o4 =>
          (c.vm.setStk arg2 (nextIdx o4)).bind fun vm =>
            (vm.setStk (arg2 + 2) (nextIdx o4)).bind fun vm =>
              (vm.resume g (vm.stackbase + arg2 + 1)).map fun (vm, _) =>
                c.goto vm a rest .loop
    | _ => some c

/-- One instruction of the loop. -/
def instr (c : Config) (a : Activation) (rest : List Activation) : Instr → Option Config
  | .write reg o => (c.vm.setStk reg o).map fun vm => { c with vm := vm }
  | .setOuter n o => match c.vm.openouters[n]? with
    | some i => (c.vm.setSlot i o).map fun vm => { c with vm := vm }
    | none => some c
  | .capture reg => some { c with vm := c.vm.findOuter (c.vm.stackbase + reg) }
  | .close arg1 => some { c with vm := c.vm.closeOuters (c.vm.stackbase + arg1) }
  | .call arg0 arg1 arg2 arg3 => c.opCall a rest arg0 arg1 arg2 arg3
  | .tailcall arg0 arg1 arg2 arg3 => c.opTailcall a rest arg0 arg1 arg2 arg3
  | .ret arg0 arg1 => c.opReturn a rest arg0 arg1
  | .yield arg0 arg1 arg2 => c.opYield a rest arg0 arg1 arg2
  | .resume arg0 arg1 => c.opResume a rest arg0 arg1
  | .foreach arg0 arg2 => c.opForeach a rest arg0 arg2
  | .pushTrap arg0 =>
    some (c.goto (c.vm.pushTrap arg0) { a with traps := a.traps + 1 } rest .loop)
  | .popTrap arg0 => (c.vm.popTraps arg0).map fun vm =>
      c.goto vm { a with traps := a.traps - arg0 } rest .loop
  | .throw o => some (c.throw { c.vm with lasterror := o } a rest)

/-- One round of the loop of `exception_trap`. -/
def unwind (c : Config) (a : Activation) (rest : List Activation) (currerror : SQObject)
    (last_top : ℤ) : Option Config :=
  match c.vm.callsstack with
  | [] => some (c.finish { c.vm with lasterror := currerror } a rest false .null)
  | ci :: _ =>
    if ci.etraps > 0 then
      match c.vm.etraps with
      | [] => none
      | et :: etraps =>
        let vm := { c.vm with
          top := et.stacksize, stackbase := et.stackbase, etraps := etraps }
        (vm.setSlot (et.stackbase + et.extarget) currerror).bind fun vm =>
          let vm := vm.setCi fun ci => { ci with etraps := ci.etraps - 1 }
          (vm.nullDown last_top (last_top - vm.top + 1).toNat).map fun vm =>
            c.goto vm { a with traps := a.traps - 1 } rest .loop
    else
      c.vm.killCi.leaveFrame.map fun vm =>
        if ci.root then c.finish { vm with lasterror := currerror } a rest false .null
        else c.goto vm a rest (.trap currerror last_top)

/-- A native function called by `_OP_CALL` has suspended the VM: `Execute` returns. -/
def suspend (c : Config) (e : Activation) (rest : List Activation) (arg0 : BitVec 8)
    (clo : SQObject) : Config :=
  let root := (c.vm.callsstack.head?.map CallInfo.root).getD false
  let vm := { c.vm with
    suspended := true
    suspendedTarget := arg0.toInt
    suspendedRoot := root
    suspendedTraps := e.traps }
  { c.finish vm e rest true clo with suspendedEntry := e.entry }

/-- The caller of an invocation takes the result. -/
def return_ (c : Config) (rest : List Activation) (ok : Bool) (res : SQObject)
    (suspend : Bool) : Cont → Option Config
  | .opCall arg0 => match rest with
    | [] => none
    | e :: es =>
      if !ok then some (c.throw c.vm e es)
      else if suspend then some (c.suspend e es arg0 res)
      else (c.vm.deliver arg0 res).map fun vm => { c with vm := vm, active := rest }
  | .opConstruct => match rest with
    | [] => none
    | e :: es => if ok then some { c with active := rest } else some (c.throw c.vm e es)
  | .reenter nparams metamethod arg0 =>
    let vm := if metamethod then
      { c.vm with nmetamethodscall := c.vm.nmetamethodscall - 1 } else c.vm
    (vm.pop nparams).bind fun vm =>
      match arg0, rest with
      | some arg0, e :: es =>
        if ok then (vm.deliver arg0 res).map fun vm => { c with vm := vm, active := rest }
        else some (c.throw vm e es)
      | _, _ => some { c with vm := vm, active := rest }
  | .sqCall params retval =>
    if ok then
      ((if c.vm.suspended then some c.vm else c.vm.pop params)).bind fun vm =>
        (if retval then vm.push res else some vm).map fun vm =>
          { c with vm := vm, active := rest }
    else (c.vm.pop params).map fun vm => { c with vm := vm, active := rest }
  | .sqResume retval =>
    if ok then
      (c.vm.setSlot (c.vm.top - 1) res).bind fun vm =>
        (if retval then some vm else vm.pop 1).map fun vm =>
          { c with vm := vm, active := rest }
    else some { c with active := rest }
  | .sqWakeup retval =>
    (if ok ∧ retval then c.vm.push res else some c.vm).map fun vm =>
      { c with vm := vm, active := rest }

/-- The C++ function that is active goes on. -/
def cont (c : Config) (a : Activation) (rest : List Activation) : Option Config :=
  match a.pc with
  | .loop | .trap _ _ => some c
  | .failed => some (c.finish c.vm a rest false .null)
  | .done ok res suspend => c.return_ rest ok (a.inst.getD res) suspend a.cont

/-- `SQVM::Suspend` -/
def canSuspend (vm : SQVM) : Bool := !vm.suspended ∧ vm.nnativecalls = 2

/-- The end of `SQVM::CallNative`. -/
def nativeRet (c : Config) (a : Activation) (rest : List Activation) (r : NativeResult) :
    Option Config :=
  let suspend := match r with | .suspend => canSuspend c.vm | _ => false
  let fails := match r with | .suspend => !suspend | .fail => true | _ => false
  let vm := { c.vm with nnativecalls := c.vm.nnativecalls - 1 }
  let a' (ok : Bool) (res : SQObject) : Activation := { a with pc := .done ok res suspend }
  if fails then vm.leaveFrame.map fun vm => { c with vm := vm, active := a' false .null :: rest }
  else
    (match r with | .zero => some SQObject.null | _ => vm.slot (vm.top - 1)).bind fun retval =>
      vm.leaveFrame.map fun vm => { c with vm := vm, active := a' true retval :: rest }

/-- `sq_resume`: `Execute(…, ET_RESUME_GENERATOR)` does not look at what `Resume`
returns. -/
def sqResume (c : Config) (retval : Bool) : Option Config :=
  (c.vm.slot (c.vm.top - 1)).bind fun
    | .generator g => (c.vm.push .null).bind fun vm =>
        let entry := vm.snapshot
        if vm.nnativecalls + 1 > MAX_NATIVE_CALLS then
          some (c.enter (vm.raiseError "Native stack overflow") .execute
            (.done false .null false) 0 (.sqResume retval) none entry)
        else
          let vm := { vm with nnativecalls := vm.nnativecalls + 1 }
          (vm.resume g (vm.top - 1)).bind fun (vm, _) =>
            if vm.callsstack = [] then none
            else
              let vm := vm.setCi fun ci => { ci with root := true }
              some (c.enter vm .execute .loop (ciTraps vm) (.sqResume retval) none entry)
    | _ => some c

def sqWakeupvm (c : Config) (wakeupret retval throwerror : Bool) : Option Config :=
  if !c.vm.suspended then some c
  else
    let target := c.vm.suspendedTarget
    let put (vm : SQVM) (o : SQObject) : Option SQVM :=
      if target ≠ -1 then vm.setStk target o else some vm
    (if wakeupret then
      (c.vm.slot (c.vm.top - 1)).bind fun ret => (put c.vm ret).bind fun vm => vm.pop 1
    else put c.vm .null).bind fun vm =>
      if vm.nnativecalls + 1 > MAX_NATIVE_CALLS then
        some (c.enter (vm.raiseError "Native stack overflow") .execute
          (.done false .null false) 0 (.sqWakeup retval) none vm.snapshot)
      else if vm.callsstack = [] then none
      else
        let vm := { vm with nnativecalls := vm.nnativecalls + 1, suspended := false }
        let vm := vm.setCi fun ci => { ci with root := vm.suspendedRoot }
        some (c.enter vm .execute (if throwerror then .trap vm.lasterror vm.top else .loop)
          vm.suspendedTraps (.sqWakeup retval) none c.suspendedEntry)

/-- A call of the API. A native function works on its own part of the stack. -/
def api (c : Config) : Api → Option Config
  | .push o => (c.vm.push o).map fun vm => { c with vm := vm }
  | .pop n =>
    if c.vm.stackbase + n ≤ c.vm.top then (c.vm.pop n).map fun vm => { c with vm := vm }
    else some c
  | .set i o =>
    if c.vm.stackbase + i < c.vm.top then (c.vm.setStk i o).map fun vm => { c with vm := vm }
    else some c
  | .reservestack nsize => some { c with vm := c.vm.reservestack nsize }
  | .call params retval =>
    if c.vm.stackbase + params < c.vm.top then
      (c.vm.slot (c.vm.top - (params + 1))).bind fun closure =>
        c.call c.vm closure params (c.vm.top - params) (.sqCall params retval)
    else some c
  | .resume retval => if c.vm.stackbase < c.vm.top then c.sqResume retval else some c
  | .wakeupvm wakeupret retval throwerror =>
    if !wakeupret ∨ c.vm.stackbase < c.vm.top then
      c.sqWakeupvm wakeupret retval throwerror
    else some c

/-- The topmost C++ code can call the API: a native function, or the host. -/
def inNative (c : Config) : Bool :=
  match c.active with
  | [] => true
  | a :: _ => match a.kind, a.pc with
    | .native, .loop => true
    | _, _ => false

/-- The topmost C++ code can call into the VM. -/
def canReenter (c : Config) : Bool :=
  match c.active with
  | [] => true
  | a :: _ => match a.pc with
    | .done _ _ _ => false
    | _ => true

/-- `none` is a fault of the memory the VM works on. An event that is not possible now
does nothing. -/
def step (c : Config) : Event → Option Config
  | .instr i => match c.active with
    | a :: rest => match a.kind, a.pc with
      | .execute, .loop => c.instr a rest i
      | _, _ => some c
    | [] => some c
  | .api a => if c.inNative then c.api a else some c
  | .nativeRet r => match c.active with
    | a :: rest => match a.kind, a.pc with
      | .native, .loop => c.nativeRet a rest r
      | _, _ => some c
    | [] => some c
  | .reenter closure args metamethod =>
    if c.canReenter then c.reenter c.vm closure args metamethod none else some c
  | .cont => match c.active with
    | a :: rest => c.cont a rest
    | [] => some c
  | .unwind => match c.active with
    | a :: rest => match a.pc with
      | .trap currerror last_top => c.unwind a rest currerror last_top
      | _ => some c
    | [] => some c
  | .objects heap => some { c with heap := heap }
  | .foreign g gen =>
    if c.vm.callsstack.any (·.generator = some g) ∨ gen.etraps.length < gen.ci.etraps then some c
    else if g < c.vm.generators.length then
      some { c with vm := { c.vm with generators := c.vm.generators.set g gen } }
    else some { c with vm := { c.vm with generators := c.vm.generators ++ [gen] } }

/-- A VM after `SQVM::Init`, with nothing running on it. -/
def init (stacksize : ℕ) (callstackdata : ℕ → ℕ) (heap : Heap) : Config where
  vm := SQVM.init stacksize callstackdata
  heap := heap
  active := []
  suspendedEntry := (SQVM.init stacksize callstackdata).snapshot

end Config
end Machine
end Squirt
