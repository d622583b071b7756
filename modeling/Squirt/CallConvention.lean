import Mathlib.Data.List.Forall2
import Squirt.FuncState
import Squirt.VmSlots

/-!
# The calling convention

Three places number the slots of a call: `CreateFunction` for the parameters,
`FunctionCallArgs` for the arguments and `StartCall` between them.
-/

namespace Squirt

/-- A parameter of a declaration; a default is the register its value is in. -/
structure ParamDecl where
  name : String
  default : Option ℕ

/-- What `CreateFunction` reads before the body. -/
structure FuncDecl where
  params : List ParamDecl
  varparams : Bool
  isstatic : Bool

namespace FuncDecl

/-- `while(_token != ')')` of `CreateFunction`. -/
def declareParams (varparams : Bool) (fs : SQFuncState) (defparams : ℕ) :
    List ParamDecl → Except String SQFuncState
  | [] =>
    if varparams then
      if defparams > 0 then
        .error "function with default parameters cannot have variable number of parameters"
      else .ok { fs.addParameter "vargv" with varparams := true }
    else .ok fs
  | p :: ps =>
    let fs := fs.addParameter p.name
    match p.default with
    | some trg => declareParams varparams (fs.addDefaultParam trg) (defparams + 1) ps
    | none => if defparams > 0 then .error "expected '='" else declareParams varparams fs 0 ps

/-- `CreateFunction` up to the body of the function. -/
def createFunction (d : FuncDecl) : Except String SQFuncState :=
  declareParams d.varparams
    (if d.isstatic then SQFuncState.init else SQFuncState.init.addParameter "this") 0 d.params

/-- The number of parameters with defaults. -/
def ndefaults (d : FuncDecl) : ℕ := (d.params.filterMap (·.default)).length

/-- The register of the `i`-th declared parameter. -/
def register (d : FuncDecl) (i : ℕ) : ℕ := (if d.isstatic then 0 else 1) + i

/-- The number of arguments a call should have. -/
def Takes (d : FuncDecl) (m : ℕ) : Prop :=
  if d.varparams then d.params.length ≤ m
  else d.params.length ≤ m + d.ndefaults ∧ m ≤ d.params.length

end FuncDecl

/-- The target an argument's `Expression()` leaves: the register of a local variable, or a
temporary. -/
inductive ArgTarget
  | localVariable (pos : ℕ)
  | temporary

/-- `_OP_CALL` or `_OP_TAILCALL`, and the registers its arguments were left in. -/
structure CallSite where
  target : ℕ
  closure : ℕ
  stackbase : ℕ
  nargs : ℕ
  args : List ℕ

namespace SQFuncState

/-- `Expression()` for an argument. -/
def expression (fs : SQFuncState) : ArgTarget → Except String SQFuncState
  | .localVariable pos => .ok (fs.pushTargetAt pos)
  | .temporary => fs.pushTarget.map (·.2)

/-- `MoveIfCurrentTargetIsLocal`: the register that is the target then. -/
def moveIfCurrentTargetIsLocal (fs : SQFuncState) : Except String (ℕ × SQFuncState) :=
  match fs.targetstack with
  | [] => .error "_targetstack"
  | trg :: _ => if fs.isLocal trg then fs.popTarget.bind fun (_, fs) => fs.pushTarget else .ok (trg, fs)

/-- `while(_token != ')')` of `FunctionCallArgs`. -/
def callArgs (fs : SQFuncState) : List ArgTarget → Except String (List ℕ × SQFuncState)
  | [] => .ok ([], fs)
  | e :: es => (fs.expression e).bind fun fs => fs.moveIfCurrentTargetIsLocal.bind fun (arg, fs) =>
      (callArgs fs es).map fun (args, fs) => (arg :: args, fs)

def popTargets (fs : SQFuncState) : ℕ → Except String SQFuncState
  | 0 => .ok fs
  | n + 1 => fs.popTarget.bind fun (_, fs) => popTargets fs n

def functionCallArgs (fs : SQFuncState) (es : List ArgTarget) : Except String CallSite :=
  (fs.callArgs es).bind fun (args, fs) => (fs.popTargets es.length).bind fun fs =>
    fs.popTarget.bind fun (stackbase, fs) => fs.popTarget.bind fun (closure, fs) =>
      fs.pushTarget.map fun (target, _) =>
        { target, closure, stackbase, nargs := es.length + 1, args }

/-- `PrefixedExpr` at a `(`: the last target it pushes is the one of `this`. -/
def callExpr (fs : SQFuncState) (es : List ArgTarget) : Except String CallSite :=
  fs.pushTarget.bind fun (_, fs) => fs.functionCallArgs es

end SQFuncState

/-- `this` and the arguments are where the code before the call has left them. -/
def CallSite.Holds (call : CallSite) (vm : SQVM) (this : SQObject) (args : List SQObject) :
    Prop :=
  vm.stk call.stackbase = some this ∧
    List.Forall₂ (fun reg o => vm.stk (reg : ℕ) = some o) call.args args

/-- The slot of `this` for `StartCall`. -/
def CallSite.base (call : CallSite) (vm : SQVM) (tailcall : Bool) : ℤ :=
  vm.stackbase + (if tailcall then 0 else call.stackbase : ℕ)

/-- The state before a call; `_stack` has `slots` slots from that of `this` on. -/
structure CallSite.Ready (call : CallSite) (vm : SQVM) (tailcall : Bool) (slots : ℕ)
    (this : SQObject) (args : List SQObject) : Prop where
  holds : call.Holds vm this args
  stackbase : 0 ≤ vm.stackbase
  length_eq : (vm.stack.length : ℤ) = call.base vm tailcall + slots

/-- `_OP_TAILCALL` moves `this` and the arguments to the first registers of the frame. -/
def CallSite.moved (call : CallSite) (vm : SQVM) (tailcall : Bool) : Option SQVM :=
  if tailcall then (vm.closeOuters vm.stackbase).moveArgs call.stackbase 0 call.nargs
  else some vm

/-- `StartCall` up to `EnterFrame`. -/
def CallSite.placed (call : CallSite) (vm : SQVM) (closure : SQClosure) (tailcall : Bool) :
    Option (SQVM × Bool) :=
  (call.moved vm tailcall).bind fun vm =>
    (vm.placeArgs closure call.nargs (call.base vm tailcall)).bind fun (vm', ok) =>
      if ok then (vm'.placeEnv closure.env (call.base vm tailcall)).map (·, true)
      else some (vm', false)

/-- `StartCall` as `_OP_CALL` and `_OP_TAILCALL` call it. -/
def CallSite.startCall (call : CallSite) (vm : SQVM) (r : ℕ) (closure : SQClosure)
    (target : ℤ) (tailcall : Bool) : Option (SQVM × Bool) :=
  (call.moved vm tailcall).bind fun vm =>
    vm.startCall r closure target call.nargs (call.base vm tailcall) tailcall

/-- A function whose body has been compiled as well: the body only adds registers. -/
structure FuncDecl.Compiles (d : FuncDecl) (func : SQFunctionProto) : Prop where
  createFunction : ∃ fs, d.createFunction = .ok fs ∧ func.nparameters = fs.parameters.length ∧
    func.ndefaultparams = fs.defaultparams.length ∧ func.varparams = fs.varparams ∧
    fs.stacksize ≤ func.stacksize

/-- Register `n` when the body starts after `StartCall`. That of a generator function starts
when the new generator is resumed, with the registers it has saved. -/
def bodyRegister (vm vm' : SQVM) (func : SQFunctionProto) (n : ℕ) : Option SQObject :=
  if func.bgenerator then (vm'.generators[vm.generators.length]?).bind (·.stack[n]?)
  else vm'.stk n

/-- The number of defaults before the `i`-th parameter. -/
def FuncDecl.defaultIndex (d : FuncDecl) (i : ℕ) : ℕ :=
  ((d.params.take i).filterMap (·.default)).length

/-- What the body should read. -/
structure FuncDecl.Binds (d : FuncDecl) (closure : SQClosure) (this : SQObject)
    (args : List SQObject) (read : ℕ → Option SQObject) (arrays : List (List SQObject)) :
    Prop where
  param : ∀ i < d.params.length,
    read (d.register i) = (args[i]?).or (closure.defaultparams[d.defaultIndex i]?)
  vargv : d.varparams = true → ∃ a, read (d.register d.params.length) = some (.array a) ∧
    arrays[a]? = some (args.drop d.params.length)
  /-- a bound function has its environment instead -/
  this : d.isstatic = false → read 0 = some (closure.env.getD this)

/-- `EnterFrame` finds room for the frame. A generator is made of it at once, and left in the
slot of the target. -/
def FrameFits (vm : SQVM) (func : SQFunctionProto) (target : ℤ) (slots : ℕ) : Prop :=
  if func.bgenerator then
    func.stacksize + MIN_STACK_OVERHEAD ≤ slots ∧ 0 ≤ target ∧ target < slots ∧ 0 ≤ vm.top
  else vm.nmetamethodscall = 0 ∨ func.stacksize + MIN_STACK_OVERHEAD ≤ slots

/-- What a call with `m` explicit arguments should do. -/
structure FuncDecl.Carried (d : FuncDecl) (m slots : ℕ) (call : CallSite) (closure : SQClosure)
    (vm : SQVM) (r : ℕ) (target : ℤ) (tailcall : Bool) (this : SQObject)
    (args : List SQObject) : Prop where
  refused : SQVM.Refused (call.startCall vm r closure target tailcall) ↔ ¬ d.Takes m
  /-- nothing is written outside `_stack` on the way to the frame -/
  placed : (call.placed vm closure tailcall).isSome = true
  started : d.Takes m → FrameFits vm closure.function target slots →
    ∃ vm', call.startCall vm r closure target tailcall = some (vm', true)
  binds : ∀ vm', call.startCall vm r closure target tailcall = some (vm', true) →
    d.Binds closure this args (bodyRegister vm vm' closure.function) vm'.arrays

/-- `CreateFunction`, `FunctionCallArgs` and `StartCall` agree on calls with `m` explicit
arguments when there are `slots` slots from that of `this` on. A tail call of a generator
function is an ordinary one. -/
def FuncDecl.Agrees (d : FuncDecl) (m slots : ℕ) : Prop :=
  ∀ (fs : SQFuncState) (es : List ArgTarget) (call : CallSite) (closure : SQClosure)
    (vm : SQVM) (r : ℕ) (target : ℤ) (tailcall : Bool) (this : SQObject) (args : List SQObject),
    fs.callExpr es = .ok call → (∀ pos, .localVariable pos ∈ es → fs.isLocal pos = true) →
    es.length = m → d.Compiles closure.function →
    (tailcall = true → closure.function.bgenerator = false) →
    call.Ready vm tailcall slots this args →
    d.Carried m slots call closure vm r target tailcall this args

section Declarations

variable {d : FuncDecl} {fs fs' : SQFuncState} {ps : List ParamDecl} {n : ℕ} {var : Bool}

open SQFuncState

namespace FuncDecl

/-- The defaults of `ps` are the last ones. -/
def DefaultsLast (ps : List ParamDecl) : Prop :=
  ps.Pairwise fun p q => p.default.isSome → q.default.isSome

/-- What the loop over the parameters makes of a function state. -/
structure Declared (fs fs' : SQFuncState) (ps : List ParamDecl) (var : Bool) : Prop where
  parameters : fs'.parameters =
    fs.parameters ++ ps.map (·.name) ++ (if var then ["vargv"] else [])
  defaultparams : fs'.defaultparams = fs.defaultparams ++ ps.filterMap (·.default)
  varparams : fs'.varparams = (fs.varparams || var)
  vlocals : fs'.vlocals.length + fs.parameters.length =
    fs'.parameters.length + fs.vlocals.length
  stacksize : fs.vlocals.length ≤ fs.stacksize → fs'.vlocals.length ≤ fs'.stacksize
  defaultsLast : DefaultsLast ps
  noDefaults : var = true → ∀ p ∈ ps, p.default = none

private theorem declareParams_spec (h : declareParams var fs n ps = .ok fs') :
    Declared fs fs' ps var ∧ (0 < n → var = false ∧ ∀ p ∈ ps, p.default.isSome = true) := by
  induction ps generalizing fs n with
  | nil =>
    simp only [declareParams] at h
    split_ifs at h with hvar hn
    · cases h
      refine ⟨⟨by simp [hvar], by simp, by simp [hvar], ?_, ?_, .nil, fun _ => nofun⟩,
        fun hpos => absurd hpos hn⟩
      · simp only [addParameter_vlocals, addParameter_parameters, List.length_cons,
          List.length_append, List.length_nil]
        omega
      · simp
    · cases h
      have hvar : var = false := Bool.eq_false_iff.mpr hvar
      exact ⟨⟨by simp [hvar], by simp, by simp [hvar], by omega, id, .nil, fun _ => nofun⟩,
        fun _ => ⟨hvar, nofun⟩⟩
  | cons p ps ih =>
    simp only [declareParams] at h
    split at h
    · -- a default: the parameters after it have one too
      rename_i trg htrg
      obtain ⟨hd, hall⟩ := ih h
      obtain ⟨hvar, hall⟩ := hall n.succ_pos
      have hp : p.default.isSome = true := by rw [htrg]; rfl
      refine ⟨⟨?_, ?_, hd.varparams, ?_, fun _ => hd.stacksize (by simp), ?_, ?_⟩,
        fun _ => ⟨hvar, ?_⟩⟩
      · simpa using hd.parameters
      · simpa [htrg] using hd.defaultparams
      · have hlen := hd.vlocals
        simp only [addParameter_vlocals, addParameter_parameters, addDefaultParam_vlocals,
          addDefaultParam_parameters, List.length_cons, List.length_append,
          List.length_nil] at hlen
        omega
      · exact .cons (fun q hq _ => hall q hq) hd.defaultsLast
      · intro hv
        rw [hvar] at hv
        cases hv
      · intro q hq
        cases hq with
        | head => exact hp
        | tail _ hq => exact hall q hq
    · rename_i hnone
      split_ifs at h with hn
      obtain ⟨hd, -⟩ := ih h
      refine ⟨⟨?_, ?_, hd.varparams, ?_, fun _ => hd.stacksize (by simp), ?_, ?_⟩,
        fun hpos => absurd hpos hn⟩
      · simpa using hd.parameters
      · simpa [hnone] using hd.defaultparams
      · have hlen := hd.vlocals
        simp only [addParameter_vlocals, addParameter_parameters, List.length_cons,
          List.length_append, List.length_nil] at hlen
        omega
      · refine .cons (fun q _ hp => ?_) hd.defaultsLast
        rw [hnone] at hp
        cases hp
      · intro hv q hq
        cases hq with
        | head => exact hnone
        | tail _ hq => exact hd.noDefaults hv q hq

theorem DefaultsLast.length_take (h : DefaultsLast ps) {i : ℕ} (hi : i ≤ ps.length) :
    ((ps.take i).filterMap (·.default)).length + ps.length =
      max ps.length (i + (ps.filterMap (·.default)).length) := by
  induction ps generalizing i with
  | nil =>
    obtain rfl : i = 0 := by simpa using hi
    rfl
  | cons p ps ih =>
    obtain ⟨hp, hps⟩ := List.pairwise_cons.mp h
    have hle : (ps.filterMap (·.default)).length ≤ ps.length := List.length_filterMap_le _ _
    cases i with
    | zero =>
      have hle' : ((p :: ps).filterMap (·.default)).length ≤ (p :: ps).length :=
        List.length_filterMap_le _ _
      simp only [List.take_zero, List.filterMap_nil, List.length_nil, zero_add]
      omega
    | succ i =>
      have hi' : i ≤ ps.length := by simpa using hi
      have ih' := ih hps hi'
      cases hd : p.default with
      | none =>
        simp only [List.take_succ_cons, List.filterMap_cons, hd, List.length_cons]
        omega
      | some trg =>
        -- all the parameters that follow have defaults
        have hfull : (ps.filterMap (·.default)).length = ps.length := by
          rw [List.length_filterMap_eq_countP, List.countP_eq_length]
          intro q hq
          exact hp q hq (by rw [hd]; rfl)
        simp only [List.take_succ_cons, List.filterMap_cons, hd, List.length_cons]
        omega

/-- What a declaration makes of its prototype. -/
structure Prototype (d : FuncDecl) (func : SQFunctionProto) : Prop where
  nparameters : func.nparameters =
    d.register d.params.length + (if d.varparams then 1 else 0)
  ndefaultparams : func.ndefaultparams = d.ndefaults
  varparams : func.varparams = d.varparams
  stacksize : func.nparameters ≤ func.stacksize
  defaultsLast : DefaultsLast d.params
  noDefaults : d.varparams = true → d.ndefaults = 0

theorem Compiles.prototype {func : SQFunctionProto} (h : d.Compiles func) :
    Prototype d func := by
  obtain ⟨fs, hfs, hn, hdef, hvar, hsize⟩ := h.createFunction
  obtain ⟨hd, -⟩ := declareParams_spec hfs
  refine ⟨?_, ?_, ?_, ?_, hd.defaultsLast, fun hv => ?_⟩
  · rw [hn, hd.parameters, register]
    cases d.isstatic <;> cases d.varparams <;> simp [SQFuncState.init] <;> omega
  · rw [hdef, hd.defaultparams, ndefaults]
    cases d.isstatic <;> simp [SQFuncState.init]
  · rw [hvar, hd.varparams]
    cases d.isstatic <;> simp [SQFuncState.init]
  · have hlen := hd.vlocals
    have hle := hd.stacksize
    cases hs : d.isstatic <;> simp [hs, SQFuncState.init] at hlen hle <;> omega
  · rw [ndefaults, List.filterMap_eq_nil_iff.mpr (hd.noDefaults hv)]
    rfl

/-- `StartCall` takes a call of a function with `this` when it should. -/
theorem Prototype.accepts_iff {func : SQFunctionProto} (h : Prototype d func)
    (hstatic : d.isstatic = false) (m : ℕ) : SQVM.accepts func (m + 1) = true ↔ d.Takes m := by
  have hle : d.ndefaults ≤ d.params.length := List.length_filterMap_le _ _
  have hn := h.nparameters
  rw [register, hstatic, if_neg Bool.false_ne_true] at hn
  rw [SQVM.accepts, Takes, h.varparams, h.ndefaultparams, hn]
  cases d.varparams with
  | true =>
    simp only [if_true, decide_eq_true_eq]
    omega
  | false =>
    simp only [Bool.false_eq_true, if_false, decide_eq_true_eq]
    omega

/-- It takes a call of a static function when it should take one with an argument more. -/
theorem Prototype.accepts_static_iff {func : SQFunctionProto} (h : Prototype d func)
    (hstatic : d.isstatic = true) (m : ℕ) :
    SQVM.accepts func (m + 1) = true ↔ d.Takes (m + 1) := by
  have hle : d.ndefaults ≤ d.params.length := List.length_filterMap_le _ _
  have hn := h.nparameters
  rw [register, hstatic, if_pos rfl] at hn
  rw [SQVM.accepts, Takes, h.varparams, h.ndefaultparams, hn]
  cases d.varparams with
  | true =>
    simp only [if_true, decide_eq_true_eq]
    omega
  | false =>
    simp only [Bool.false_eq_true, if_false, decide_eq_true_eq]
    omega

end FuncDecl
end Declarations

section Calls

open SQFuncState

variable {fs fs' fs'' : SQFuncState} {es : List ArgTarget} {n : ℕ} {regs : List ℕ}

namespace SQFuncState

/-- `fs'` has the targets `regs` over those of `fs`, each a new temporary. -/
structure Pushed (fs fs' : SQFuncState) (regs : List ℕ) : Prop where
  targetstack : fs'.targetstack = regs.reverse ++ fs.targetstack
  vlocals : fs'.vlocals = List.replicate regs.length none ++ fs.vlocals
  regs_eq : regs = List.range' fs.vlocals.length regs.length

theorem Pushed.isLocal (h : Pushed fs fs' regs) (hn : fs.isLocal n = true) :
    fs'.isLocal n = true := by
  unfold SQFuncState.isLocal at hn ⊢
  rw [h.vlocals, List.reverse_append]
  rcases lt_or_ge n fs.vlocals.length with hlt | hge
  · rw [List.getElem?_append_left (by simpa using hlt)]
    exact hn
  · rw [List.getElem?_eq_none (by simpa using hge)] at hn
    cases hn

/-- A temporary is no local variable. -/
theorem Pushed.not_isLocal (h : Pushed fs fs' regs) (hge : fs.vlocals.length ≤ n) :
    fs'.isLocal n = false := by
  unfold SQFuncState.isLocal
  rw [h.vlocals, List.reverse_append, List.reverse_replicate,
    List.getElem?_append_right (by simpa using hge), List.getElem?_replicate]
  split_ifs <;> rfl

theorem pushTarget_spec {r : ℕ × SQFuncState} (h : fs.pushTarget = .ok r) :
    r.1 = fs.vlocals.length ∧ r.2.vlocals = none :: fs.vlocals ∧
      r.2.targetstack = fs.vlocals.length :: fs.targetstack := by
  unfold pushTarget allocStackPos at h
  simp only at h
  split_ifs at h
  · cases h
  · cases h
    exact ⟨rfl, rfl, rfl⟩
  · cases h
    exact ⟨rfl, rfl, rfl⟩

theorem Pushed.snoc {r : ℕ} (h : Pushed fs fs' regs)
    (hpush : fs'.pushTarget = .ok (r, fs'')) : Pushed fs fs'' (regs ++ [r]) := by
  obtain ⟨hr, hv, ht⟩ := pushTarget_spec hpush
  simp only at hr hv ht
  have hlen : fs'.vlocals.length = fs.vlocals.length + regs.length := by
    rw [h.vlocals, List.length_append, List.length_replicate, Nat.add_comm]
  refine ⟨?_, ?_, ?_⟩
  · rw [ht, h.targetstack, hr]
    simp
  · rw [hv, h.vlocals, List.length_append, List.length_singleton, List.replicate_succ]
    rfl
  · rw [List.length_append, List.length_singleton, List.range'_concat, ← h.regs_eq, hr, hlen]
    simp

/-- The arguments get the registers that follow each other. -/
theorem callArgs_spec {r : List ℕ × SQFuncState} (h : Pushed fs fs' regs)
    (hlocal : ∀ pos, .localVariable pos ∈ es → fs.isLocal pos = true)
    (hargs : fs'.callArgs es = .ok r) :
    r.1.length = es.length ∧ Pushed fs r.2 (regs ++ r.1) := by
  induction es generalizing fs' regs r with
  | nil =>
    cases hargs
    exact ⟨rfl, by simpa using h⟩
  | cons e es ih =>
    obtain ⟨fs₁, hexpr, hargs⟩ := exists_of_bind_eq_ok hargs
    obtain ⟨⟨arg, fs₂⟩, hmove, hargs⟩ := exists_of_bind_eq_ok hargs
    obtain ⟨⟨args, fs₃⟩, hrest, rfl⟩ := exists_of_map_eq_ok hargs
    -- whether the value was moved or not, it is in a new temporary
    have hpushed : Pushed fs fs₂ (regs ++ [arg]) := by
      cases e with
      | temporary =>
        obtain ⟨⟨r, fs₀⟩, hpush, rfl⟩ := exists_of_map_eq_ok hexpr
        have hr := (pushTarget_spec hpush).1
        have ht := (pushTarget_spec hpush).2.2
        simp only at hr ht
        have hp := h.snoc hpush
        have hnot : fs₀.isLocal fs'.vlocals.length = false := by
          refine hp.not_isLocal ?_
          rw [h.vlocals, List.length_append]
          omega
        simp only [moveIfCurrentTargetIsLocal, ht, hnot, Bool.false_eq_true, if_false] at hmove
        cases hmove
        rw [← hr]
        exact hp
      | localVariable pos =>
        cases hexpr
        have hloc := h.isLocal (hlocal pos (.head _))
        have hloc' : (fs'.pushTargetAt pos).isLocal pos = true := hloc
        simp only [pushTargetAt] at hloc'
        simp only [moveIfCurrentTargetIsLocal, pushTargetAt, popTarget, hloc', if_true] at hmove
        exact h.snoc hmove
    obtain ⟨hlen, hp⟩ := ih hpushed (fun pos hpos => hlocal pos (.tail _ hpos)) hrest
    refine ⟨by rw [List.length_cons, hlen, List.length_cons], ?_⟩
    rw [List.append_assoc] at hp
    exact hp

/-- The temporaries are popped again. -/
theorem popTargets_spec {k : ℕ} (h : Pushed fs fs' regs) (hk : regs.length = k)
    (hpop : fs'.popTargets k = .ok fs'') :
    fs''.targetstack = fs.targetstack ∧ fs''.vlocals = fs.vlocals := by
  induction k generalizing fs' regs with
  | zero =>
    cases hpop
    obtain rfl : regs = [] := List.eq_nil_of_length_eq_zero hk
    exact ⟨by simpa using h.targetstack, by simpa using h.vlocals⟩
  | succ k ih =>
    obtain ⟨⟨r, fs₁⟩, hpop₁, hpop⟩ := exists_of_bind_eq_ok hpop
    obtain ⟨regs', last, rfl⟩ : ∃ regs' last, regs = regs' ++ [last] := by
      refine ⟨regs.dropLast, regs.getLast ?_, (List.dropLast_append_getLast _).symm⟩
      rintro rfl
      cases hk
    have hlen : regs'.length = k := by simpa using hk
    have ht := h.targetstack
    rw [List.reverse_append, List.reverse_singleton, List.singleton_append,
      List.cons_append] at ht
    have hrange := h.regs_eq
    rw [List.length_append, List.length_singleton, List.range'_concat] at hrange
    obtain ⟨hregs', hlast⟩ := List.append_inj hrange (by simp)
    have hlast' : last = fs.vlocals.length + regs'.length := by simpa using hlast
    have hnot : fs'.isLocal last = false := h.not_isLocal (by omega)
    simp only [popTarget, ht, hnot, Bool.false_eq_true, if_false] at hpop₁
    cases hpop₁
    refine ih ⟨rfl, ?_, hregs'⟩ hlen hpop
    simp only [h.vlocals, List.length_append, List.length_singleton, List.replicate_succ,
      List.cons_append, List.tail_cons]

end SQFuncState

/-- What `FunctionCallArgs` emits. -/
theorem callExpr_spec {call : CallSite} (h : fs.callExpr es = .ok call)
    (hlocal : ∀ pos, .localVariable pos ∈ es → fs.isLocal pos = true) :
    call.stackbase = fs.vlocals.length ∧ call.nargs = es.length + 1 ∧
      call.args = List.range' (call.stackbase + 1) es.length := by
  obtain ⟨⟨this, fs₁⟩, hthis, h⟩ := exists_of_bind_eq_ok h
  obtain ⟨⟨args, fs₂⟩, hargs, h⟩ := exists_of_bind_eq_ok h
  obtain ⟨fs₃, hpop, h⟩ := exists_of_bind_eq_ok h
  obtain ⟨⟨stackbase, fs₄⟩, hbase, h⟩ := exists_of_bind_eq_ok h
  obtain ⟨⟨closure, fs₅⟩, hclosure, h⟩ := exists_of_bind_eq_ok h
  obtain ⟨⟨target, fs₆⟩, htarget, rfl⟩ := exists_of_map_eq_ok h
  have hstart : Pushed fs fs [] := ⟨rfl, rfl, rfl⟩
  have hthis' := hstart.snoc hthis
  have hlocal' : ∀ pos, .localVariable pos ∈ es → fs₁.isLocal pos = true :=
    fun pos hpos => hthis'.isLocal (hlocal pos hpos)
  have hone : Pushed fs₁ fs₁ [] := ⟨rfl, rfl, rfl⟩
  obtain ⟨hlen, hp⟩ := callArgs_spec hone hlocal' hargs
  rw [List.nil_append] at hp
  obtain ⟨ht, -⟩ := popTargets_spec hp hlen hpop
  obtain ⟨-, hv, ht₁⟩ := pushTarget_spec hthis
  simp only at hv ht₁
  have hbase' : stackbase = fs.vlocals.length := by
    rw [ht₁] at ht
    simp only [popTarget, ht] at hbase
    cases hbase
    rfl
  have hregs := hp.regs_eq
  rw [hv, List.length_cons, hlen] at hregs
  exact ⟨hbase', rfl, by rw [hbase']; exact hregs⟩

end Calls

section Agreement

variable {d : FuncDecl} {fs : SQFuncState} {es : List ArgTarget} {call : CallSite}
  {closure : SQClosure} {vm vm' : SQVM} {r m : ℕ} {target : ℤ} {this : SQObject}
  {args : List SQObject}

/-- The slots of a call hold `this` and the arguments in order. -/
theorem CallSite.Holds.slot (h : call.Holds vm this args)
    (hregs : call.args = List.range' (call.stackbase + 1) m) :
    args.length = m ∧ ∀ k ≤ m, vm.slot (vm.stackbase + call.stackbase + k) = (this :: args)[k]? := by
  obtain ⟨hthis, hargs⟩ := h
  have hlen := hargs.length_eq
  rw [hregs, List.length_range'] at hlen
  refine ⟨hlen.symm, fun k hk => ?_⟩
  cases k with
  | zero => simpa [SQVM.stk] using hthis
  | succ k =>
    have hk₁ : k < call.args.length := by
      rw [hregs, List.length_range']
      omega
    have hk₂ : k < args.length := by omega
    have hget := List.forall₂_iff_get.mp hargs |>.2 k hk₁ hk₂
    simp only [List.get_eq_getElem, hregs, List.getElem_range', SQVM.stk] at hget
    rw [List.getElem?_cons_succ, List.getElem?_eq_getElem hk₂, ← hget]
    congr 1
    push_cast
    omega

/-- What `StartCall` finds: `this` and the arguments from its base on. -/
structure CallSite.Moved (call : CallSite) (vm vm₀ : SQVM) (tailcall : Bool)
    (this : SQObject) (args : List SQObject) : Prop where
  same : ∃ stack openouters, stack.length = vm.stack.length ∧
    vm₀ = { vm with stack := stack, openouters := openouters }
  slot : ∀ k ≤ args.length, vm₀.slot (call.base vm tailcall + k) = (this :: args)[k]?

theorem CallSite.Ready.moved {tailcall : Bool} {slots : ℕ}
    (h : call.Ready vm tailcall slots this args) (hnargs : call.nargs = m + 1)
    (hregs : call.args = List.range' (call.stackbase + 1) m) :
    args.length = m ∧ ∃ vm₀, call.moved vm tailcall = some vm₀ ∧
      call.Moved vm vm₀ tailcall this args := by
  obtain ⟨hlen, hslots⟩ := h.holds.slot hregs
  refine ⟨hlen, ?_⟩
  rw [← hlen] at hslots
  cases tailcall with
  | false => exact ⟨vm, rfl, ⟨_, _, rfl, rfl⟩, hslots⟩
  | true =>
    obtain ⟨vm₁, hvm₁⟩ : ∃ vm₁, vm₁ = vm.closeOuters vm.stackbase := ⟨_, rfl⟩
    have hbase₁ : vm₁.stackbase = vm.stackbase := by rw [hvm₁]; rfl
    have hstack₁ : vm₁.stack = vm.stack := by rw [hvm₁]; rfl
    have hlast : (vm.slot (vm.stackbase + call.stackbase + m)).isSome := by
      rw [hslots m hlen.ge, isSome_getElem?, List.length_cons]
      omega
    have hroom := (SQVM.slot_isSome_iff.mp hlast).2
    obtain ⟨vm₀, hmove⟩ := Option.isSome_iff_exists.mp
      (@SQVM.moveArgs_isSome vm₁ (m + 1) call.stackbase 0 (hbase₁.symm ▸ h.stackbase)
        (by rw [hbase₁, hstack₁]; push_cast; omega))
    obtain ⟨⟨stack, hsize, rfl⟩, -, hread⟩ := SQVM.moveArgs_spec hmove
    refine ⟨_, by rw [CallSite.moved, if_pos rfl, hnargs, ← hvm₁, hmove],
      ⟨stack, vm₁.openouters, hsize.trans (by rw [hstack₁]), by rw [hvm₁]; rfl⟩, fun k hk => ?_⟩
    have hk' := hread k (by omega)
    simp only [Nat.zero_add, SQVM.stk, hbase₁] at hk'
    rw [CallSite.base, if_pos rfl, Nat.cast_zero, add_zero]
    refine Eq.trans hk' ?_
    rw [SQVM.slot_eq_of_stack hstack₁, ← hslots k hk]
    congr 1
    push_cast
    omega

/-- `StartCall` leaves what it has put in place, and the environment of a bound function. -/
theorem startCall_bodyRegister {nargs : ℕ} {base : ℤ} {tailcall : Bool}
    (htail : tailcall = true → closure.function.bgenerator = false)
    (h : vm.startCall r closure target nargs base tailcall = some (vm', true)) :
    ∃ vm₁ vm₂, vm.placeArgs closure nargs base = some (vm₁, true) ∧
      vm₁.placeEnv closure.env base = some vm₂ ∧ vm'.arrays = vm₁.arrays ∧
      ∀ k < closure.function.stacksize, (vm₂.slot (base + k)).isSome →
        bodyRegister vm vm' closure.function k = vm₂.slot (base + k) := by
  simp only [SQVM.startCall] at h
  obtain ⟨⟨vm₁, ok⟩, h₁, h⟩ := Option.bind_eq_some_iff.mp h
  cases ok with
  | false => cases h
  | true =>
    obtain ⟨vm₂, h₂, h⟩ := Option.bind_eq_some_iff.mp h
    have hw := SQVM.wrote_placeEnv h₂
    refine ⟨vm₁, vm₂, h₁, h₂, ?_⟩
    split at h
    · cases h
    · rename_i vm₃ heq
      have hbase : vm₃.stackbase = base := SQVM.enterCall_stackbase heq
      have harrays₃ : vm₃.arrays = vm₁.arrays := (SQVM.arrays_enterCall heq).trans hw.arrays
      split_ifs at h with hgen
      · have hcall : tailcall = false := by
          by_contra htrue
          rw [htail (by simpa using htrue)] at hgen
          cases hgen
        rw [hcall] at heq
        obtain ⟨f, he, -, -, hgens, -⟩ := SQVM.enterCall_spec heq
        have htop : vm₃.top = base + closure.function.stacksize :=
          congrArg Snapshot.top he.snapshot
        obtain ⟨harrays, gen, hsaved, -, -, hstack⟩ :=
          SQVM.startGenerator_saves (htop.trans (by rw [hbase])) h
        refine ⟨harrays.trans harrays₃, fun k hk hsome => ?_⟩
        have hlen : vm₃.generators.length = vm.generators.length := by
          rw [hgens, hw.generators, (SQVM.stored_placeArgs h₁).generators]
        rw [hlen] at hsaved
        rw [bodyRegister, if_pos hgen, hsaved, Option.bind_some, hstack k hk, hbase,
          SQVM.slot_enterCall heq hsome]
      · cases h
        refine ⟨harrays₃, fun k hk hsome => ?_⟩
        rw [bodyRegister, if_neg hgen, SQVM.stk, hbase, SQVM.slot_enterCall heq hsome]

namespace FuncDecl

/-- The register of a parameter holds its argument or its default. -/
theorem placed_param (hstatic : d.isstatic = false) (hproto : Prototype d closure.function)
    (hvar : d.varparams = false) {base : ℤ} {vm₁ : SQVM} (hlen : args.length = m)
    (hslots : ∀ k ≤ m, vm.slot (base + k) = (this :: args)[k]?)
    (hplace : vm.placeArgs closure (m + 1) base = some (vm₁, true)) {i : ℕ}
    (hi : i < d.params.length) :
    vm₁.slot (base + (1 + i : ℕ)) = (args[i]?).or (closure.defaultparams[d.defaultIndex i]?) := by
  have hn := hproto.nparameters
  rw [register, hstatic, hvar, if_neg Bool.false_ne_true, if_neg Bool.false_ne_true] at hn
  obtain ⟨-, hregs⟩ := SQVM.placeArgs_fixed (hproto.varparams.trans hvar) hplace
  have htakes := (hproto.accepts_iff hstatic m).mp (SQVM.placeArgs_accepts hplace).symm
  rw [Takes, hvar, if_neg Bool.false_ne_true] at htakes
  have hdefs := hproto.ndefaultparams
  have hindex := hproto.defaultsLast.length_take hi.le
  rw [hregs (1 + i) (by omega)]
  rcases lt_or_ge i m with him | him
  · have hget : args[i]? = some args[i] := List.getElem?_eq_getElem (by omega)
    rw [if_pos (by omega), hslots (1 + i) (by omega), Nat.add_comm 1 i, List.getElem?_cons_succ,
      hget, Option.some_or]
  · have hnone : args[i]? = none := List.getElem?_eq_none (by omega)
    rw [if_neg (by omega), hnone, Option.none_or]
    congr 1
    simp only [ndefaults, defaultIndex] at hdefs htakes hindex ⊢
    omega

/-- The array of the other arguments. -/
theorem placed_vargv (hstatic : d.isstatic = false) (hproto : Prototype d closure.function)
    (hvar : d.varparams = true) {base : ℤ} {vm₁ : SQVM} (hlen : args.length = m)
    (hslots : ∀ k ≤ m, vm.slot (base + k) = (this :: args)[k]?)
    (hplace : vm.placeArgs closure (m + 1) base = some (vm₁, true)) :
    (∀ k ≤ d.params.length, vm₁.slot (base + k) = (this :: args)[k]?) ∧
      d.params.length ≤ m ∧
      ∃ a, vm₁.slot (base + (1 + d.params.length : ℕ)) = some (.array a) ∧
        vm₁.arrays[a]? = some (args.drop d.params.length) := by
  have hn := hproto.nparameters
  rw [register, hstatic, hvar, if_neg Bool.false_ne_true, if_pos rfl] at hn
  obtain ⟨hle, hregs, a, values, ha, harrays, hvalues⟩ :=
    SQVM.placeArgs_variadic (hproto.varparams.trans hvar) hplace
  have hn' : closure.function.nparameters - 1 = 1 + d.params.length := by omega
  rw [hn'] at hle hregs ha hvalues
  refine ⟨fun k hk => ?_, by omega, a, ha, ?_⟩
  · rw [hregs k (by omega), hslots k (by omega)]
  · rw [harrays]
    obtain ⟨hlen', hget⟩ := SQVM.slots_eq_some hvalues
    congr 1
    refine List.ext_getElem? fun j => ?_
    rw [List.getElem?_drop]
    rcases lt_or_ge j (m + 1 - (1 + d.params.length)) with hj | hj
    · have hslot := hslots (1 + d.params.length + j) (by omega)
      rw [← hget j hj, ← List.getElem?_cons_succ (a := this),
        show d.params.length + j + 1 = 1 + d.params.length + j by omega, ← hslot]
      congr 1
      push_cast
      omega
    · rw [List.getElem?_eq_none (by omega), List.getElem?_eq_none (by omega)]

/-- A function with `this` reads its arguments where the call has put them. -/
theorem binds_of_startCall (hstatic : d.isstatic = false) (hproto : Prototype d closure.function)
    {base : ℤ} {tailcall : Bool} (htail : tailcall = true → closure.function.bgenerator = false)
    (hlen : args.length = m)
    (hslots : ∀ k ≤ m, vm.slot (base + k) = (this :: args)[k]?)
    (h : vm.startCall r closure target (m + 1) base tailcall = some (vm', true)) :
    d.Binds closure this args (bodyRegister vm vm' closure.function) vm'.arrays := by
  obtain ⟨vm₁, vm₂, hplace, henv, harrays, hread⟩ := startCall_bodyRegister htail h
  have hn := hproto.nparameters
  have hsize := hproto.stacksize
  have hreg : ∀ i, d.register i = 1 + i := by
    intro i
    rw [register, hstatic, if_neg Bool.false_ne_true]
  rw [hreg] at hn
  -- a register that holds something is read as it is, but for that of `this`
  have hreads : ∀ k o, 0 < k → k < closure.function.nparameters →
      vm₁.slot (base + k) = some o →
      bodyRegister vm vm' closure.function k = some o := by
    intro k o hpos hk ho
    rw [← SQVM.slot_placeEnv_ne henv (by omega)] at ho
    rw [hread k (by omega) (by rw [ho]; rfl), ho]
  have hthis : ∀ o, vm₁.slot (base + (0 : ℕ)) = some o →
      bodyRegister vm vm' closure.function 0 = some (closure.env.getD o) := by
    intro o ho
    have ho' := SQVM.slot_placeEnv henv (by simpa using ho)
    rw [hread 0 (by omega) (by simp [ho'])]
    simpa using ho'
  cases hvar : d.varparams with
  | false =>
    rw [hvar, if_neg Bool.false_ne_true] at hn
    have htakes := (hproto.accepts_iff hstatic m).mp (SQVM.placeArgs_accepts hplace).symm
    rw [Takes, hvar, if_neg Bool.false_ne_true] at htakes
    obtain ⟨-, hregs⟩ := SQVM.placeArgs_fixed (hproto.varparams.trans hvar) hplace
    refine ⟨fun i hi => ?_, by rw [hvar]; nofun, fun _ => ?_⟩
    · have hvalue := placed_param hstatic hproto hvar hlen hslots hplace hi
      have hsome : ((args[i]?).or (closure.defaultparams[d.defaultIndex i]?)).isSome := by
        have hindex := hproto.defaultsLast.length_take hi.le
        have hdefs := closure.defaults.trans hproto.ndefaultparams
        rw [Option.isSome_or, Bool.or_eq_true, isSome_getElem?, isSome_getElem?]
        simp only [ndefaults, defaultIndex] at hdefs htakes hindex ⊢
        omega
      obtain ⟨o, ho⟩ := Option.isSome_iff_exists.mp hsome
      rw [ho] at hvalue ⊢
      rw [hreg]
      exact hreads (1 + i) o (by omega) (by omega) hvalue
    · have h0 := hregs 0 (by omega)
      rw [if_pos m.succ_pos, hslots 0 (Nat.zero_le m)] at h0
      exact hthis this h0
  | true =>
    rw [hvar, if_pos rfl] at hn
    obtain ⟨hparams, hle, a, ha, hvalues⟩ :=
      placed_vargv hstatic hproto hvar hlen hslots hplace
    refine ⟨fun i hi => ?_, fun _ => ⟨a, ?_, ?_⟩, fun _ => ?_⟩
    · have hget : args[i]? = some args[i] := List.getElem?_eq_getElem (by omega)
      have hslot := hparams (1 + i) (by omega)
      rw [Nat.add_comm 1 i, List.getElem?_cons_succ, hget] at hslot
      rw [hget, Option.some_or, hreg, Nat.add_comm 1 i]
      exact hreads (i + 1) _ (by omega) (by omega) hslot
    · rw [hreg]
      exact hreads _ _ (by omega) (by omega) ha
    · rw [harrays]
      exact hvalues
    · exact hthis this (hparams 0 (Nat.zero_le _))

end FuncDecl

namespace SQFuncState

theorem pushTarget_ok (fs : SQFuncState) (h : fs.vlocals.length + 1 ≤ fs.stacksize) :
    fs.pushTarget = .ok (fs.vlocals.length, { fs with
      vlocals := none :: fs.vlocals, targetstack := fs.vlocals.length :: fs.targetstack }) := by
  simp only [pushTarget, allocStackPos, List.length_cons]
  rw [if_neg (by omega)]
  rfl

private theorem callArgs_ok (fs : SQFuncState) {n : ℕ} (h : fs.vlocals.length + n ≤ fs.stacksize) :
    ∃ regs fs', fs.callArgs (List.replicate n .temporary) = .ok (regs, fs') ∧
      fs'.targetstack.length = n + fs.targetstack.length ∧ fs'.stacksize = fs.stacksize := by
  induction n generalizing fs with
  | zero => exact ⟨[], fs, rfl, (Nat.zero_add _).symm, rfl⟩
  | succ n ih =>
    obtain ⟨fs₁, hfs₁⟩ : ∃ fs₁ : SQFuncState, fs₁ = { fs with
        vlocals := none :: fs.vlocals
        targetstack := fs.vlocals.length :: fs.targetstack } := ⟨_, rfl⟩
    have hpush := fs.pushTarget_ok (by omega)
    rw [← hfs₁] at hpush
    obtain ⟨regs, fs', hrest, hlen, hsize⟩ := ih fs₁ (by
      rw [hfs₁]
      simp only [List.length_cons]
      omega)
    have hnot : fs₁.isLocal fs.vlocals.length = false := by
      rw [hfs₁]
      simp [isLocal]
    have hmove : fs₁.moveIfCurrentTargetIsLocal = .ok (fs.vlocals.length, fs₁) := by
      have htop : fs₁.targetstack = fs.vlocals.length :: fs.targetstack := by rw [hfs₁]
      simp only [moveIfCurrentTargetIsLocal, htop, hnot, Bool.false_eq_true, if_false]
    refine ⟨fs.vlocals.length :: regs, fs', ?_, ?_, hsize.trans (by rw [hfs₁])⟩
    · simp only [List.replicate_succ, callArgs, expression, hpush, Except.map, Except.bind,
        hmove, hrest]
    · rw [hlen, hfs₁]
      simp only [List.length_cons]
      omega

theorem popTarget_ok (fs : SQFuncState) (h : 0 < fs.targetstack.length) :
    ∃ n fs', fs.popTarget = .ok (n, fs') ∧
      fs'.targetstack.length + 1 = fs.targetstack.length ∧
      fs'.vlocals.length ≤ fs.vlocals.length ∧ fs'.stacksize = fs.stacksize := by
  unfold popTarget
  split
  · rename_i hnil
    rw [hnil] at h
    exact absurd h (Nat.lt_irrefl 0)
  · rename_i npos targets hcons
    refine ⟨npos, _, rfl, by rw [hcons]; rfl, ?_, rfl⟩
    simp only
    split_ifs
    · exact le_rfl
    · rw [List.length_tail]
      exact Nat.sub_le _ _

private theorem popTargets_ok (fs : SQFuncState) {n : ℕ} (h : n ≤ fs.targetstack.length) :
    ∃ fs', fs.popTargets n = .ok fs' ∧ fs'.stacksize = fs.stacksize := by
  induction n generalizing fs with
  | zero => exact ⟨fs, rfl, rfl⟩
  | succ n ih =>
    obtain ⟨r, fs₁, hpop, hlen, -, hsize⟩ := fs.popTarget_ok (by omega)
    obtain ⟨fs', hpops, hsize'⟩ := ih fs₁ (by omega)
    refine ⟨fs', ?_, hsize'.trans hsize⟩
    simp only [popTargets, hpop, Except.bind, hpops]

end SQFuncState

section Static

open FuncDecl

/-- A caller with the closure in its register 0. -/
def callerState (m : ℕ) : SQFuncState :=
  { SQFuncState.init with vlocals := [none], targetstack := [0], stacksize := m + 4 }

/-- Its stack: `this` is told from the arguments, which are null. -/
def callerVm (size : ℕ) : SQVM :=
  { SQVM.init 0 id with stack := .null :: .string "this" :: List.replicate size .null }

private theorem callerVm_slot {size k : ℕ} (hk : k < size) :
    (callerVm size).slot (2 + k : ℕ) = some .null := by
  have hcast : (0 : ℤ) ≤ ((2 + k : ℕ) : ℤ) := by omega
  rw [SQVM.slot, if_pos hcast, Int.toNat_natCast, Nat.add_comm 2 k]
  change (List.replicate size SQObject.null)[k]? = some .null
  rw [List.getElem?_replicate, if_pos hk]

private theorem callerState_call (m : ℕ) : ∃ call,
    (callerState m).callExpr (List.replicate m .temporary) = .ok call := by
  have hpush := (callerState m).pushTarget_ok (by simp [callerState])
  obtain ⟨fs₁, hfs₁⟩ : ∃ fs₁ : SQFuncState, fs₁ = { callerState m with
      vlocals := none :: (callerState m).vlocals
      targetstack := (callerState m).vlocals.length :: (callerState m).targetstack } := ⟨_, rfl⟩
  rw [← hfs₁] at hpush
  obtain ⟨regs, fs₂, hargs, hlen, hsize⟩ := fs₁.callArgs_ok (n := m) (by
    rw [hfs₁]
    simp only [callerState, List.length_cons, List.length_nil]
    omega)
  obtain ⟨fs₃, hpops, hsize₃⟩ := fs₂.popTargets_ok (n := m) (by omega)
  have hone : SQFuncState.Pushed fs₁ fs₁ [] := ⟨rfl, rfl, rfl⟩
  obtain ⟨hregs, hp⟩ := SQFuncState.callArgs_spec hone (fun pos hpos => by
    cases List.eq_of_mem_replicate hpos) hargs
  obtain ⟨ht₃, hv₃⟩ := SQFuncState.popTargets_spec hp (by simpa using hregs) hpops
  have ht₁ : fs₁.targetstack.length = 2 := by rw [hfs₁]; rfl
  have hv₁ : fs₁.vlocals.length = 2 := by rw [hfs₁]; rfl
  have hs₁ : fs₁.stacksize = m + 4 := by rw [hfs₁]; rfl
  obtain ⟨base, fs₄, hpop₄, hlen₄, hv₄, hs₄⟩ := fs₃.popTarget_ok (by rw [ht₃, ht₁]; omega)
  obtain ⟨clo, fs₅, hpop₅, hlen₅, hv₅, hs₅⟩ := fs₄.popTarget_ok (by rw [ht₃, ht₁] at hlen₄; omega)
  have hpush₅ := fs₅.pushTarget_ok (by rw [hv₃] at hv₄; omega)
  refine ⟨⟨fs₅.vlocals.length, clo, base, m + 1, regs⟩, ?_⟩
  rw [SQFuncState.callExpr, hpush]
  simp only [SQFuncState.functionCallArgs, List.length_replicate, hargs, Except.bind, hpops,
    hpop₄, hpop₅, hpush₅, Except.map]

/-- A closure of the declared function whose defaults are null. -/
def nullClosure (fs : SQFuncState) : SQClosure where
  function := { fs.buildProto with bgenerator := false }
  defaultparams := List.replicate fs.defaultparams.length .null
  env := none
  defaults := List.length_replicate

/-- The slots of the call of `callerState`. -/
theorem callerVm_holds {size : ℕ} (hm : m ≤ size)
    (h : (callerState m).callExpr (List.replicate m .temporary) = .ok call) :
    call.stackbase = 1 ∧ call.nargs = m + 1 ∧
      call.Holds (callerVm size) (.string "this") (List.replicate m .null) := by
  obtain ⟨hbase, hnargs, hregs⟩ := callExpr_spec h fun pos hpos => by
    cases List.eq_of_mem_replicate hpos
  rw [List.length_replicate] at hnargs hregs
  have hbase' : call.stackbase = 1 := hbase
  refine ⟨hbase', hnargs, by rw [hbase']; rfl, ?_⟩
  rw [List.forall₂_iff_get]
  refine ⟨by rw [hregs]; simp, fun i hi₁ hi₂ => ?_⟩
  rw [List.length_replicate] at hi₂
  simp only [List.get_eq_getElem, hregs, hbase', List.getElem_range', List.getElem_replicate,
    SQVM.stk]
  rw [← callerVm_slot (hi₂.trans_le hm)]
  congr 1
  simp [callerVm, SQVM.init]

/-- It has `size + 1` slots from that of `this` on. -/
theorem callerVm_ready {size : ℕ} (hm : m ≤ size)
    (h : (callerState m).callExpr (List.replicate m .temporary) = .ok call) :
    call.Ready (callerVm size) false (size + 1) (.string "this") (List.replicate m .null) := by
  obtain ⟨hbase, -, hholds⟩ := callerVm_holds hm h
  refine ⟨hholds, le_rfl, ?_⟩
  simp only [CallSite.base, hbase, callerVm, SQVM.init, List.length_cons, List.length_replicate,
    Bool.false_eq_true, if_false]
  push_cast
  omega

/-- The call gets its frame when its arguments find room. -/
theorem callerVm_startCall {size : ℕ} (hgen : closure.function.bgenerator = false)
    (hbase : call.stackbase = 1) (hacc : SQVM.accepts closure.function call.nargs = true)
    (hplaced : (call.placed (callerVm size) closure false).isSome = true) :
    ∃ vm', call.startCall (callerVm size) r closure target false = some (vm', true) := by
  have hbase' : call.base (callerVm size) false = 1 := by rw [CallSite.base, hbase]; rfl
  refine SQVM.startCall_isSome hgen hacc ?_ ?_ ?_ (.inr rfl)
  · exact Option.isSome_of_isSome_bind hplaced
  · rw [hbase']
    exact Int.one_nonneg
  · rw [hbase']
    simp only [callerVm, List.length_cons]
    omega

/-- The first parameter of a static function reads `this`. -/
theorem static_param_zero {base : ℤ} (hstatic : d.isstatic = true)
    (hproto : Prototype d closure.function) (henv : closure.env = none)
    (hslots : ∀ k ≤ m, vm.slot (base + k) = (this :: args)[k]?) (hpos : 0 < d.params.length)
    (h : vm.startCall r closure target (m + 1) base false = some (vm', true)) :
    bodyRegister vm vm' closure.function 0 = some this := by
  obtain ⟨vm₁, vm₂, hplace, hvm₂, -, hread⟩ := startCall_bodyRegister (by nofun) h
  rw [henv] at hvm₂
  obtain rfl : vm₁ = vm₂ := Option.some.inj hvm₂
  have hn := hproto.nparameters
  have hsize := hproto.stacksize
  rw [register, hstatic, if_pos rfl, Nat.zero_add] at hn
  have hthis : vm₁.slot (base + (0 : ℕ)) = some this := by
    have h0 := hslots 0 (Nat.zero_le m)
    rw [List.getElem?_cons_zero] at h0
    rw [← h0]
    cases hvar : d.varparams with
    | false =>
      obtain ⟨-, hregs⟩ := SQVM.placeArgs_fixed (hproto.varparams.trans hvar) hplace
      rw [hregs 0 (by omega), if_pos m.succ_pos]
    | true =>
      obtain ⟨-, hregs, -⟩ := SQVM.placeArgs_variadic (hproto.varparams.trans hvar) hplace
      rw [hvar, if_pos rfl] at hn
      exact hregs 0 (by omega)
  rw [hread 0 (by omega) (by rw [hthis]; rfl), hthis]

/-- The array of a static function without parameters has `this` in it. -/
theorem static_vargv {base : ℤ} (hstatic : d.isstatic = true)
    (hproto : Prototype d closure.function) (henv : closure.env = none)
    (hvar : d.varparams = true) (hzero : d.params.length = 0)
    (h : vm.startCall r closure target (m + 1) base false = some (vm', true)) :
    ∃ a values, bodyRegister vm vm' closure.function 0 = some (.array a) ∧
      vm'.arrays[a]? = some values ∧ values.length = m + 1 := by
  obtain ⟨vm₁, vm₂, hplace, hvm₂, harrays, hread⟩ := startCall_bodyRegister (by nofun) h
  rw [henv] at hvm₂
  obtain rfl : vm₁ = vm₂ := Option.some.inj hvm₂
  have hn := hproto.nparameters
  have hsize := hproto.stacksize
  rw [register, hstatic, hvar, hzero, if_pos rfl, if_pos rfl] at hn
  obtain ⟨-, -, a, values, ha, hvalues, hslots⟩ :=
    SQVM.placeArgs_variadic (hproto.varparams.trans hvar) hplace
  rw [hn] at ha hslots
  refine ⟨a, values, ?_, by rw [harrays]; exact hvalues, (SQVM.slots_eq_some hslots).1⟩
  rw [hread 0 (by omega) (by rw [ha]; rfl)]
  exact ha

/-- The state of a caller with `slots` slots from that of `this` on. -/
theorem carried_callerVm {slots : ℕ} (hagrees : d.Agrees m slots) (hm : m < slots)
    {fs : SQFuncState} (hfs : d.createFunction = .ok fs) :
    ∃ call : CallSite, call.stackbase = 1 ∧ call.nargs = m + 1 ∧
      (∀ k ≤ m, (callerVm (slots - 1)).slot (1 + k) =
        (SQObject.string "this" :: List.replicate m .null)[k]?) ∧
      d.Carried m slots call (nullClosure fs) (callerVm (slots - 1)) 0 0 false (.string "this")
        (List.replicate m .null) := by
  obtain ⟨call, hcall⟩ := callerState_call m
  have hlocal : ∀ pos, .localVariable pos ∈ List.replicate m ArgTarget.temporary →
      (callerState m).isLocal pos = true := fun pos hpos => by
    cases List.eq_of_mem_replicate hpos
  obtain ⟨hbase, hnargs, hholds⟩ := @callerVm_holds call m (slots - 1) (by omega) hcall
  have hready := @callerVm_ready call m (slots - 1) (by omega) hcall
  rw [Nat.sub_add_cancel (by omega)] at hready
  obtain ⟨-, hslots⟩ := hholds.slot ((callExpr_spec hcall hlocal).2.2.trans
    (by rw [List.length_replicate]))
  rw [hbase] at hslots
  exact ⟨call, hbase, hnargs, hslots, hagrees (callerState m) _ call (nullClosure fs) _ 0 0 false
    _ _ hcall hlocal List.length_replicate ⟨fs, hfs, rfl, rfl, rfl, le_rfl⟩ nofun hready⟩

/-- Where `FunctionCallArgs` and `StartCall` take different numbers, or the first parameter
reads `this`. -/
theorem FuncDecl.not_agrees_of_static {slots : ℕ} (hm : m < slots) (hstatic : d.isstatic = true)
    (hdecl : ∃ fs, d.createFunction = .ok fs) (hlow : d.params.length ≤ m + d.ndefaults + 1)
    (hhigh : d.varparams = true ∨ m ≤ d.params.length) : ¬ d.Agrees m slots := by
  intro hagrees
  obtain ⟨fs, hfs⟩ := hdecl
  obtain ⟨call, hbase, hnargs, hslots, hcarried⟩ := carried_callerVm hagrees hm hfs
  have hcompiles : d.Compiles (nullClosure fs).function := ⟨fs, hfs, rfl, rfl, rfl, le_rfl⟩
  have hproto := hcompiles.prototype
  have hbase' : call.base (callerVm (slots - 1)) false = 1 := by rw [CallSite.base, hbase]; rfl
  -- the two numbers of arguments have to be taken alike
  have htakes : d.Takes (m + 1) ↔ d.Takes m := by
    have hrefuse : SQVM.Refused (call.startCall (callerVm (slots - 1)) 0 (nullClosure fs) 0 false) ↔
        SQVM.accepts (nullClosure fs).function call.nargs = false :=
      SQVM.startCall_refuses_iff nofun
    rw [← hproto.accepts_static_iff hstatic, ← hnargs, ← not_iff_not, ← hcarried.refused, hrefuse,
      Bool.not_eq_true]
  have hle : d.ndefaults ≤ d.params.length := List.length_filterMap_le _ _
  have htakes₁ : d.Takes (m + 1) ∧ (d.varparams = false → m < d.params.length) := by
    rw [Takes, Takes] at htakes
    rw [Takes]
    cases hvar : d.varparams with
    | true =>
      simp only [hvar, if_true] at htakes ⊢
      have := hproto.noDefaults hvar
      exact ⟨by omega, nofun⟩
    | false =>
      have hm := hhigh.resolve_left (by rw [hvar]; exact Bool.false_ne_true)
      simp only [hvar, Bool.false_eq_true, if_false] at htakes ⊢
      omega
  obtain ⟨htakes₁, hlt⟩ := htakes₁
  obtain ⟨vm', hstart⟩ := @callerVm_startCall call (nullClosure fs) 0 0 _ rfl hbase
    (by rw [hnargs]; exact (hproto.accepts_static_iff hstatic m).mpr htakes₁) hcarried.placed
  have hbind := hcarried.binds vm' hstart
  have hstart' : (callerVm (slots - 1)).startCall 0 (nullClosure fs) 0 (m + 1) 1 false =
      some (vm', true) := by
    rw [← hnargs, ← hbase']
    exact hstart
  rcases Nat.eq_zero_or_pos d.params.length with hzero | hpos
  · -- `vargv` has one element too many
    have hvar : d.varparams = true := by
      by_contra hvar
      have := hlt (Bool.eq_false_iff.mpr hvar)
      omega
    obtain ⟨a, values, ha, hvalues, hlen⟩ :=
      static_vargv hstatic hproto rfl hvar hzero hstart'
    obtain ⟨b, hb, hrest⟩ := hbind.vargv hvar
    rw [register, hstatic, hzero, if_pos rfl] at hb
    obtain rfl : b = a := SQObject.array.inj (Option.some.inj (hb.symm.trans ha))
    rw [hvalues, hzero, List.drop_zero] at hrest
    rw [Option.some.inj hrest, List.length_replicate] at hlen
    omega
  · -- the first argument, or its default, is null
    have hthis := static_param_zero hstatic hproto rfl hslots hpos hstart'
    have hparam := hbind.param 0 hpos
    rw [register, hstatic, if_pos rfl, hthis] at hparam
    have hmem : SQObject.string "this" ∈ List.replicate m SQObject.null ++
        List.replicate fs.defaultparams.length SQObject.null := by
      rw [List.mem_append]
      rcases Option.or_eq_some_iff.mp hparam.symm with h | ⟨-, h⟩
      · exact .inl (List.mem_of_getElem? h)
      · exact .inr (List.mem_of_getElem? h)
    rw [List.replicate_append_replicate] at hmem
    cases List.eq_of_mem_replicate hmem

/-- The missing parameters of a function with `this` need slots before `EnterFrame` makes the
stack larger. -/
theorem FuncDecl.Agrees.room {slots : ℕ} (hagrees : d.Agrees m slots) (hm : m < slots)
    (hstatic : d.isstatic = false) (hdecl : ∃ fs, d.createFunction = .ok fs)
    (htakes : d.Takes m) :
    d.register d.params.length + (if d.varparams then 1 else 0) ≤ slots := by
  obtain ⟨fs, hfs⟩ := hdecl
  obtain ⟨call, hbase, hnargs, -, hcarried⟩ := carried_callerVm hagrees hm hfs
  have hcompiles : d.Compiles (nullClosure fs).function := ⟨fs, hfs, rfl, rfl, rfl, le_rfl⟩
  have hproto := hcompiles.prototype
  have hbase' : call.base (callerVm (slots - 1)) false = 1 := by rw [CallSite.base, hbase]; rfl
  have hplaced : ((callerVm (slots - 1)).placeArgs (nullClosure fs) call.nargs
      (call.base (callerVm (slots - 1)) false)).isSome = true :=
    Option.isSome_of_isSome_bind hcarried.placed
  obtain ⟨⟨vm₁, ok⟩, hplace⟩ := Option.isSome_iff_exists.mp hplaced
  have hok := SQVM.placeArgs_accepts hplace
  rw [hnargs, (hproto.accepts_iff hstatic m).mpr htakes] at hok
  obtain rfl : ok = true := hok
  have hlen : (callerVm (slots - 1)).stack.length = slots + 1 := by
    simp only [callerVm, List.length_cons, List.length_replicate]
    omega
  have hroom := SQVM.placeArgs_room (by rw [hbase', hnargs, hlen]; push_cast; omega) hplace
  rw [hbase', hlen, hproto.nparameters] at hroom
  omega

/-- A function with `this` gets its arguments where the body reads them. -/
theorem FuncDecl.carried_of_method {slots : ℕ} {tailcall : Bool} (hstatic : d.isstatic = false)
    (hproto : Prototype d closure.function)
    (htail : tailcall = true → closure.function.bgenerator = false)
    (hroom : d.Takes m → d.register d.params.length + (if d.varparams then 1 else 0) ≤ slots)
    (hm : m < slots) (hnargs : call.nargs = m + 1)
    (hregs : call.args = List.range' (call.stackbase + 1) m)
    (hready : call.Ready vm tailcall slots this args) :
    d.Carried m slots call closure vm r target tailcall this args := by
  obtain ⟨hlen, vm₀, hmoved, ⟨stack, outers, hsize, rfl⟩, hslots⟩ := hready.moved hnargs hregs
  rw [hlen] at hslots
  obtain ⟨vm₀, hvm₀⟩ : ∃ vm₀ : SQVM, vm₀ = { vm with stack := stack, openouters := outers } :=
    ⟨_, rfl⟩
  rw [← hvm₀] at hmoved hslots
  have hlen₀ : (vm₀.stack.length : ℤ) = call.base vm tailcall + slots := by
    rw [← hready.length_eq, hvm₀]
    exact congrArg _ hsize
  have hbase : 0 ≤ call.base vm tailcall := by
    have := hready.stackbase
    rw [CallSite.base]
    omega
  have hbase₀ : call.base vm₀ tailcall = call.base vm tailcall := by rw [hvm₀]; rfl
  have hstart : call.startCall vm r closure target tailcall =
      vm₀.startCall r closure target (m + 1) (call.base vm tailcall) tailcall := by
    rw [CallSite.startCall, hmoved, Option.bind_some, hbase₀, hnargs]
  have hacc := hproto.accepts_iff hstatic m
  have hplace : (vm₀.placeArgs closure (m + 1) (call.base vm tailcall)).isSome = true := by
    by_cases htakes : d.Takes m
    · have hn := hproto.nparameters
      have hroom := hroom htakes
      refine SQVM.placeArgs_isSome hbase ?_ ?_ fun hv => ?_
      · push_cast
        omega
      · omega
      · rw [hproto.varparams] at hv
        rw [hv, if_pos rfl] at hn hroom
        omega
    · rw [SQVM.placeArgs_refuses (by rw [← Bool.not_eq_true, hacc]; exact htakes)]
      rfl
  refine ⟨?_, ?_, fun htakes hfits => ?_, fun vm' h => ?_⟩
  · rw [hstart, SQVM.startCall_refuses_iff htail, ← hacc, Bool.not_eq_true]
  · obtain ⟨⟨vm₁, ok⟩, h₁⟩ := Option.isSome_iff_exists.mp hplace
    rw [CallSite.placed, hmoved, Option.bind_some, hbase₀, hnargs, h₁, Option.bind_some]
    cases ok with
    | false => rfl
    | true =>
      have hlen₁ := (SQVM.stored_placeArgs h₁).length_eq
      simp only [if_true, Option.isSome_map]
      exact SQVM.placeEnv_isSome hbase (by omega)
  · rw [hstart]
    have hacc' := hacc.mpr htakes
    rw [FrameFits] at hfits
    split_ifs at hfits with hgen
    · obtain rfl : tailcall = false := by
        by_contra htrue
        rw [htail (by simpa using htrue)] at hgen
        cases hgen
      obtain ⟨hsize₁, h0, ht, htop⟩ := hfits
      have hsb : vm₀.stackbase = vm.stackbase := by rw [hvm₀]
      have htop₀ : vm₀.top = vm.top := by rw [hvm₀]
      have hle : vm.stackbase ≤ call.base vm false := by
        rw [CallSite.base]
        omega
      have hsb0 := hready.stackbase
      exact SQVM.startCall_isSome_of_room hacc' hplace hbase (by omega) (by omega) (by omega)
    · refine SQVM.startCall_isSome (by simpa using hgen) hacc' hplace hbase (by omega) ?_
      rw [SQVM.HasRoom]
      rcases hfits with hmeta | hfits
      · exact .inr (by rw [hvm₀]; exact hmeta)
      · exact .inl (by omega)
  · rw [hstart] at h
    have hbinds := binds_of_startCall hstatic hproto htail hlen hslots h
    have hgens : bodyRegister vm₀ vm' closure.function = bodyRegister vm vm' closure.function := by
      rw [hvm₀]
      rfl
    rwa [hgens] at hbinds

/-- A static function refuses a call that would have too few arguments with `this`, or too
many without. -/
theorem FuncDecl.carried_of_static {slots : ℕ} {tailcall : Bool} (hstatic : d.isstatic = true)
    (hproto : Prototype d closure.function)
    (htail : tailcall = true → closure.function.bgenerator = false)
    (hcond : m + d.ndefaults + 1 < d.params.length ∨
      (d.varparams = false ∧ d.params.length < m)) (hnargs : call.nargs = m + 1)
    (hregs : call.args = List.range' (call.stackbase + 1) m)
    (hready : call.Ready vm tailcall slots this args) :
    d.Carried m slots call closure vm r target tailcall this args := by
  obtain ⟨-, vm₀, hmoved, -⟩ := hready.moved hnargs hregs
  have hle : d.ndefaults ≤ d.params.length := List.length_filterMap_le _ _
  have hno : ¬ d.Takes (m + 1) ∧ ¬ d.Takes m := by
    rw [Takes, Takes]
    rcases hcond with h | ⟨hvar, h⟩
    · split_ifs <;> omega
    · simp only [hvar, Bool.false_eq_true, if_false]
      omega
  have hacc : SQVM.accepts closure.function (m + 1) = false := by
    rw [← Bool.not_eq_true, hproto.accepts_static_iff hstatic]
    exact hno.1
  have hstart : call.startCall vm r closure target tailcall =
      vm₀.startCall r closure target (m + 1) (call.base vm₀ tailcall) tailcall := by
    rw [CallSite.startCall, hmoved, Option.bind_some, hnargs]
  have hrefused : SQVM.Refused (call.startCall vm r closure target tailcall) := by
    rw [hstart]
    exact (SQVM.startCall_refuses_iff htail).mpr hacc
  refine ⟨⟨fun _ => hno.2, fun _ => hrefused⟩, ?_, fun h => absurd h hno.2, fun vm' h => ?_⟩
  · rw [CallSite.placed, hmoved, Option.bind_some, hnargs, SQVM.placeArgs_refuses hacc]
    rfl
  · obtain ⟨vm₁, h₁, -⟩ := hrefused
    rw [h₁] at h
    cases h

end Static

/-- `static function foo(p)` -/
def staticFoo : FuncDecl where
  params := [⟨"p", none⟩]
  varparams := false
  isstatic := true

/-- The same function as a method. -/
def methodFoo : FuncDecl := { staticFoo with isstatic := false }

end Agreement

end Squirt
