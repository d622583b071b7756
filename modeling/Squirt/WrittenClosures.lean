import Squirt.CallConvention
import Squirt.ClosureRoundTrip

/-!
# Closures that have been written and read

What is in the stream is the prototype; a closure has more than that.
-/

namespace Squirt.ClosureStream

open ByteStream ByteStream.Reader

variable {P : Platform}

def SQ_BYTECODE_STREAM_TAG : BitVec 16 := 0xFAFA#16

def _OP_GETBASE : BitVec 8 := 0x3B#8

namespace SQFunctionProto

/-- The members that `StartCall` reads. -/
def toVm (p : SQFunctionProto P) : Squirt.SQFunctionProto where
  nparameters := p.parameters.length
  stacksize := p.stacksize.toInt.toNat
  ndefaultparams := p.defaultparams.length
  varparams := p.varparams ≠ 0
  bgenerator := p.bgenerator

/-- `base` is used in the function. -/
def UsesBase (p : SQFunctionProto P) : Prop := ∃ i ∈ p.instructions, i.op = _OP_GETBASE

/-- `StartCall` takes some number of arguments, `this` among them. -/
def Callable (p : SQFunctionProto P) : Prop := ∃ m, SQVM.accepts p.toVm (m + 1) = true

end SQFunctionProto

/-- `none` in `outervalues` is null. -/
structure SQClosure (P : Platform) where
  env : Option SQObject
  base : Option ℕ
  function : SQFunctionProto P
  outervalues : List (Option ℕ)
  defaultparams : List SQObject
  outers : outervalues.length = function.outervalues.length
  defaults : defaultparams.length = function.defaultparams.length

namespace SQClosure

def create (func : SQFunctionProto P) : SQClosure P where
  env := none
  base := none
  function := func
  outervalues := List.replicate func.outervalues.length none
  defaultparams := List.replicate func.defaultparams.length .null
  outers := List.length_replicate
  defaults := List.length_replicate

/-- The closure with another environment. -/
def bindEnv (c : SQClosure P) (env : Option SQObject) : SQClosure P := { c with env := env }

/-- The members that `StartCall` reads. -/
def toVm (c : SQClosure P) : Squirt.SQClosure where
  function := c.function.toVm
  defaultparams := c.defaultparams
  env := c.env
  defaults := c.defaults

/-- The default values that calls can need. -/
def needed (c : SQClosure P) : List SQObject :=
  if c.function.toVm.varparams then []
  else c.defaultparams.drop
    (c.function.toVm.ndefaultparams - (c.function.toVm.nparameters - 1))

end SQClosure

def streamTagLayout : Layout (BitVec 16) := .word 2

def sq_writeclosure (c : SQClosure P) : Write :=
  if c.function.outervalues.length ≠ 0 then
    fun _ => .error "a closure with free valiables bound it cannot be serialized"
  else (writeValue streamTagLayout SQ_BYTECODE_STREAM_TAG).andThen (saveClosure c.function)

def sq_readclosure (P : Platform) : Read (SQClosure P) := do
  let tag ← readValue streamTagLayout
  if tag ≠ SQ_BYTECODE_STREAM_TAG then Reader.raise (.error "invalid stream")
  else return .create (← loadClosure P)

/-- What the instructions of a prototype compute after `StartCall`. Of the closure they see
the outer values, and `_OP_GETBASE` loads the base class. -/
structure Body (P : Platform) (Result : Type) where
  run : SQFunctionProto P → Option ℕ → List (Option ℕ) → SQVM → Result
  getbase : ∀ p base base' outers vm, ¬ p.UsesBase → run p base outers vm = run p base' outers vm

/-- A call of `c`: the error of `StartCall`, or what the body computes. -/
def SQClosure.call {Result : Type} (c : SQClosure P) (body : Body P Result) (vm : SQVM) (r : ℕ)
    (target : ℤ) (nargs : ℕ) (stackbase : ℤ) : Option (Except SQObject Result) :=
  (vm.startCall r c.toVm target nargs stackbase false).map fun (vm, ok) =>
    if ok then .ok (body.run c.function c.base c.outervalues vm) else .error vm.lasterror

/-- Calls with `this` and any arguments. -/
structure BehavesLike (c c' : SQClosure P) : Prop where
  accepts : ∀ m, SQVM.accepts c.toVm.function m = SQVM.accepts c'.toVm.function m
  call : ∀ (Result : Type) (body : Body P Result) vm r target m stackbase,
    c.call body vm r target (m + 1) stackbase = c'.call body vm r target (m + 1) stackbase

theorem mirrors_writeclosure {c : SQClosure P} (h : c.function.Storable)
    (houters : c.function.outervalues = []) :
    Mirrors (sq_writeclosure c) (sq_readclosure P) (.create c.function) := by
  have hlen : ¬ c.function.outervalues.length ≠ 0 := by simp [houters]
  rw [sq_writeclosure, if_neg hlen]
  refine (mirrors_value streamTagLayout SQ_BYTECODE_STREAM_TAG).bind ?_
  rw [if_neg (not_not_intro rfl)]
  exact (mirrors_loadClosure h).map SQClosure.create

/-- The closure that is read has nothing but the prototype. -/
theorem readclosure_eq_create {c c' : SQClosure P} {out bs rest : List Byte}
    (h : c.function.Storable) (hw : sq_writeclosure c out = .ok (out ++ bs))
    (hr : sq_readclosure P bs = .ok (c', rest)) :
    c.function.outervalues = [] ∧ c' = .create c.function := by
  have houters : c.function.outervalues = [] := by
    rw [sq_writeclosure] at hw
    split_ifs at hw with hlen
    exact List.eq_nil_of_length_eq_zero (by omega)
  obtain ⟨bs', hw', hread⟩ := mirrors_writeclosure h houters out
  obtain rfl : bs = bs' := List.append_cancel_left (Except.ok.inj (hw.symm.trans hw'))
  have hread' := hread []
  rw [List.append_nil, hr] at hread'
  exact ⟨houters, congrArg Prod.fst (Except.ok.inj hread')⟩

section Calls

variable {c c' : SQClosure P}

/-- Closures of one function with one environment, whose calls need the same defaults. -/
theorem startCall_eq {d d' : Squirt.SQClosure} (hfun : d.function = d'.function)
    (henv : d.env = d'.env) {vm : SQVM} {r nargs : ℕ} {target stackbase : ℤ}
    (hplace : vm.placeArgs d nargs stackbase = vm.placeArgs d' nargs stackbase) :
    vm.startCall r d target nargs stackbase false =
      vm.startCall r d' target nargs stackbase false := by
  simp only [SQVM.startCall, SQVM.enterCall, hplace, hfun, henv]

private theorem placeArgs_eq_of_needed (hfun : c.function = c'.function) (hc : c.needed = c'.needed)
    (vm : SQVM) (m : ℕ) (stackbase : ℤ) :
    vm.placeArgs c.toVm (m + 1) stackbase = vm.placeArgs c'.toVm (m + 1) stackbase := by
  have hfun' : c.toVm.function = c'.toVm.function := congrArg SQFunctionProto.toVm hfun
  simp only [SQVM.placeArgs, hfun']
  split_ifs with hvar hlt hne hdef
  · rfl
  · rfl
  · -- a suffix of the defaults that are needed
    have hdrop : c.toVm.defaultparams.drop (c'.toVm.function.ndefaultparams -
        (c'.toVm.function.nparameters - (m + 1))) = c'.toVm.defaultparams.drop
          (c'.toVm.function.ndefaultparams - (c'.toVm.function.nparameters - (m + 1))) := by
      have hvar' : c'.function.toVm.varparams = false := Bool.eq_false_iff.mpr hvar
      rw [SQClosure.needed, SQClosure.needed, hfun, if_neg (by rw [hvar']; decide),
        if_neg (by rw [hvar']; decide)] at hc
      have hle : c'.function.toVm.ndefaultparams - (c'.function.toVm.nparameters - 1) ≤
          c'.function.toVm.ndefaultparams - (c'.function.toVm.nparameters - (m + 1)) := by
        omega
      obtain ⟨k, hk⟩ := Nat.exists_eq_add_of_le hle
      have hdrop := congrArg (List.drop k) hc
      rw [List.drop_drop, List.drop_drop, ← hk] at hdrop
      exact hdrop
    rw [hdrop]
  · rfl
  · rfl

/-- What is needed for two closures of one function to behave alike is enough. -/
theorem behavesLike_of_needed (hfun : c.function = c'.function) (henv : c.env = c'.env)
    (houters : c.outervalues = c'.outervalues) (hneeded : c.needed = c'.needed)
    (hbase : c.base = c'.base ∨ ¬ c.function.UsesBase ∨ ¬ c.function.Callable) :
    BehavesLike c c' := by
  have hfun' : c.toVm.function = c'.toVm.function := congrArg SQFunctionProto.toVm hfun
  refine ⟨fun m => by rw [hfun'], fun Result body vm r target m stackbase => ?_⟩
  have hstart := @startCall_eq c.toVm c'.toVm hfun' henv vm r (m + 1) target stackbase
    (placeArgs_eq_of_needed hfun hneeded vm m stackbase)
  rw [SQClosure.call, SQClosure.call, ← hstart]
  cases hcall : vm.startCall r c.toVm target (m + 1) stackbase false with
  | none => rfl
  | some res =>
    obtain ⟨vm', ok⟩ := res
    cases ok with
    | false => rfl
    | true =>
      simp only [Option.map_some, if_true]
      rcases hbase with h | h | h
      · rw [hfun, h, houters]
      · rw [← hfun, ← houters, body.getbase _ _ c'.base _ _ h]
      · -- no call gets that far
        obtain ⟨vm₁, _, hplace, -⟩ := startCall_bodyRegister (by nofun) hcall
        exact absurd ⟨m, (SQVM.placeArgs_accepts hplace).symm⟩ h

/-- A machine that has room for a call. -/
def roomyVm (size : ℕ) : SQVM := { SQVM.init 0 id with stack := List.replicate size .null }

theorem roomyVm_startCall {size nargs : ℕ} (d : Squirt.SQClosure)
    (hacc : SQVM.accepts d.function nargs = true)
    (hsize : nargs + d.function.nparameters + d.function.stacksize + 20 ≤ size) :
    ∃ vm', (roomyVm size).startCall 0 d 0 nargs 0 false = some (vm', true) := by
  have hlen : (roomyVm size).stack.length = size := List.length_replicate
  have hbase : (roomyVm size).stackbase = 0 := rfl
  have htop : (roomyVm size).top = 0 := rfl
  have hmin : MIN_STACK_OVERHEAD = 15 := rfl
  refine SQVM.startCall_isSome_of_room hacc (SQVM.placeArgs_isSome ?_ ?_ ?_ fun _ => ?_)
    ?_ ⟨?_, ?_⟩ ⟨?_, ?_, ?_⟩ ?_
  all_goals omega

/-- The register of a missing argument. -/
theorem roomyVm_register {size nargs q : ℕ} {d : Squirt.SQClosure} {vm' : SQVM}
    (h : (roomyVm size).startCall 0 d 0 nargs 0 false = some (vm', true))
    (hvar : d.function.varparams = false) (hargs : 0 < nargs ∧ nargs ≤ q)
    (hq : q < d.function.nparameters) (hregs : d.function.nparameters ≤ d.function.stacksize)
    (hdef : d.function.nparameters ≤ q + d.function.ndefaultparams) :
    bodyRegister (roomyVm size) vm' d.function q =
      d.defaultparams[q + d.function.ndefaultparams - d.function.nparameters]? := by
  obtain ⟨vm₁, vm₂, hplace, henv, -, hread⟩ := startCall_bodyRegister (by nofun) h
  obtain ⟨-, hslots⟩ := SQVM.placeArgs_fixed hvar hplace
  have hslot := hslots q hq
  rw [if_neg (by omega), ← SQVM.slot_placeEnv_ne henv (by omega)] at hslot
  have hlen := d.defaults
  rw [← hslot, hread q (by omega)]
  rw [hslot, isSome_getElem?]
  omega

/-- The default values that calls need are read by the body. -/
theorem BehavesLike.needed_eq (h : BehavesLike c c') (hfun : c.function = c'.function)
    (hregs : c.function.toVm.nparameters ≤ c.function.toVm.stacksize) :
    c.needed = c'.needed := by
  have hfun' : c.toVm.function = c'.toVm.function := congrArg SQFunctionProto.toVm hfun
  have hlen := c.toVm.defaults
  have hlen' := c'.toVm.defaults
  rw [← hfun'] at hlen'
  rw [SQClosure.needed, SQClosure.needed, ← hfun]
  split_ifs with hvar
  · rfl
  refine List.ext_getElem? fun j => ?_
  rw [List.getElem?_drop, List.getElem?_drop]
  change c.toVm.defaultparams[_]? = c'.toVm.defaultparams[_]?
  obtain ⟨f, hf⟩ : ∃ f, f = c.function.toVm := ⟨_, rfl⟩
  have hc : c.toVm.function = f := hf.symm
  rw [hc] at hlen hlen' hfun'
  rw [← hf] at hvar hregs ⊢
  rcases Nat.lt_or_ge (f.ndefaultparams - (f.nparameters - 1) + j) f.ndefaultparams with hj | hj
  · -- a call that leaves this default and those after it out
    obtain ⟨q, hq⟩ : ∃ q, q + f.ndefaultparams - f.nparameters =
        f.ndefaultparams - (f.nparameters - 1) + j ∧ 0 < q ∧ q < f.nparameters ∧
          f.nparameters ≤ q + f.ndefaultparams :=
      ⟨f.ndefaultparams - (f.nparameters - 1) + j + f.nparameters - f.ndefaultparams, by omega⟩
    obtain ⟨hq, hq0, hqn, hqd⟩ := hq
    obtain ⟨m, rfl⟩ : ∃ m, q = m + 1 := ⟨q - 1, by omega⟩
    have hvar' : f.varparams = false := Bool.eq_false_iff.mpr hvar
    have hacc : SQVM.accepts f (m + 1) = true := by
      rw [SQVM.accepts, if_neg hvar, decide_eq_true_eq]
      omega
    obtain ⟨size, hsize⟩ : ∃ size, m + 1 + f.nparameters + f.stacksize + 20 ≤ size :=
      ⟨_, le_rfl⟩
    obtain ⟨vm₁, h₁⟩ := @roomyVm_startCall size _ c.toVm (hc.symm ▸ hacc)
      (hc.symm ▸ hsize)
    obtain ⟨vm₂, h₂⟩ := @roomyVm_startCall size _ c'.toVm (hfun' ▸ hacc)
      (hfun' ▸ hsize)
    let body : Body P (Option SQObject) :=
      ⟨fun p _ _ vm => bodyRegister (roomyVm size) vm p.toVm (m + 1), fun _ _ _ _ _ _ => rfl⟩
    have hcall := h.call _ body (roomyVm size) 0 0 m 0
    rw [SQClosure.call, SQClosure.call, h₁, h₂] at hcall
    have hread := Except.ok.inj (Option.some.inj hcall)
    change bodyRegister (roomyVm size) vm₁ c.toVm.function (m + 1) =
      bodyRegister (roomyVm size) vm₂ c'.toVm.function (m + 1) at hread
    rw [roomyVm_register h₁ (hc ▸ hvar') (by omega) (hc ▸ hqn) (hc ▸ hregs) (hc ▸ hqd),
      roomyVm_register h₂ (hfun' ▸ hvar') (by omega) (hfun' ▸ hqn) (hfun' ▸ hregs)
        (hfun' ▸ hqd), hc, ← hfun', hq] at hread
    exact hread
  · rw [List.getElem?_eq_none (by omega), List.getElem?_eq_none (by omega)]

/-- So is the base class. -/
theorem BehavesLike.base_eq (h : BehavesLike c c') (hfun : c.function = c'.function) :
    c.base = c'.base ∨ ¬ c.function.UsesBase ∨ ¬ c.function.Callable := by
  by_contra hnot
  simp only [not_or, not_not] at hnot
  obtain ⟨hbase, huses, m, hacc⟩ := hnot
  have hfun' : c.function.toVm = c'.toVm.function := congrArg SQFunctionProto.toVm hfun
  classical
  obtain ⟨size, hsize⟩ : ∃ size, m + 1 + c.function.toVm.nparameters +
    c.function.toVm.stacksize + 20 ≤ size := ⟨_, le_rfl⟩
  obtain ⟨vm₁, h₁⟩ := @roomyVm_startCall size _ c.toVm hacc hsize
  obtain ⟨vm₂, h₂⟩ := @roomyVm_startCall size _ c'.toVm (hfun' ▸ hacc) (hfun' ▸ hsize)
  let body : Body P (Option ℕ) :=
    ⟨fun p base _ _ => if p.UsesBase then base else none,
      fun p _ _ _ _ hp => by rw [if_neg hp, if_neg hp]⟩
  have hcall := h.call _ body (roomyVm size) 0 0 m 0
  rw [SQClosure.call, SQClosure.call, h₁, h₂] at hcall
  have hread := Except.ok.inj (Option.some.inj hcall)
  simp only [body, ← hfun, if_pos huses] at hread
  exact hbase hread

/-- All the defaults of a new closure are null. -/
theorem eq_null_of_needed_create {func : SQFunctionProto P} {env : Option SQObject}
    {o : SQObject} (h : o ∈ ((SQClosure.create func).bindEnv env).needed) : o = .null := by
  rw [SQClosure.needed] at h
  split_ifs at h
  · cases h
  · exact List.eq_of_mem_replicate (List.mem_of_mem_drop h)

private theorem length_needed (hfun : c.function = c'.function) :
    c.needed.length = c'.needed.length := by
  have hlen := c.defaults
  have hlen' := c'.defaults
  rw [SQClosure.needed, SQClosure.needed, hfun]
  split_ifs
  · rfl
  · rw [List.length_drop, List.length_drop, hlen, hlen', hfun]

end Calls

/-- A closure that has been written and read behaves as the original, in the environment of
the original, unless a call needs a default value or the base class. -/
theorem readclosure_behavesLike_iff (c c' : SQClosure P) (out bs rest : List Byte)
    (h : c.function.Storable) (hregs : c.function.toVm.nparameters ≤ c.function.toVm.stacksize)
    (hw : sq_writeclosure c out = .ok (out ++ bs))
    (hr : sq_readclosure P bs = .ok (c', rest)) :
    BehavesLike c (c'.bindEnv c.env) ↔
      (∀ o ∈ c.needed, o = .null) ∧
        (c.base = none ∨ ¬ c.function.UsesBase ∨ ¬ c.function.Callable) := by
  obtain ⟨houters, rfl⟩ := readclosure_eq_create h hw hr
  constructor
  · intro hlike
    refine ⟨fun o ho => ?_, hlike.base_eq rfl⟩
    rw [hlike.needed_eq rfl hregs] at ho
    exact eq_null_of_needed_create ho
  · rintro ⟨hnull, hbase⟩
    refine behavesLike_of_needed rfl rfl ?_ ?_ hbase
    · have hlen := c.outers
      rw [houters] at hlen
      rw [List.eq_nil_of_length_eq_zero hlen]
      simp [SQClosure.bindEnv, SQClosure.create, houters]
    · refine List.ext_getElem (length_needed rfl) fun i h₁ h₂ => ?_
      rw [hnull _ (List.getElem_mem h₁), eq_null_of_needed_create (List.getElem_mem h₂)]

section Example

/-- `function(a = 1) { return a }` -/
def defaultProto : SQFunctionProto win64 := { lambdaProto with outervalues := [] }

/-- `function(a) { return a }` -/
def plainProto : SQFunctionProto win64 := { defaultProto with defaultparams := [] }

def defaultClosure : SQClosure win64 where
  env := none
  base := none
  function := defaultProto
  outervalues := []
  defaultparams := [.data 0x2 1]
  outers := rfl
  defaults := rfl

private theorem storable_defaultProto : defaultProto.Storable := by
  refine .mk ⟨trivial, trivial, ?_, ?_, ?_, ?_, ?_, ?_, ?_, ?_, ?_, ?_, ?_, ?_⟩ ?_
  all_goals first | decide | simp [defaultProto, lambdaProto, SQObjectPtr.IsPlain]

private theorem storable_plainProto : plainProto.Storable := by
  refine .mk ⟨trivial, trivial, ?_, ?_, ?_, ?_, ?_, ?_, ?_, ?_, ?_, ?_, ?_, ?_⟩ ?_
  all_goals first | decide | simp [plainProto, defaultProto, lambdaProto, SQObjectPtr.IsPlain]

theorem readclosure_behavesLike_plainProto : ∃ bs,
    sq_writeclosure (.create plainProto) [] = .ok bs ∧
    sq_readclosure win64 bs = .ok (.create plainProto, []) ∧
    BehavesLike (.create plainProto) ((SQClosure.create plainProto).bindEnv none) := by
  obtain ⟨bs, hw, hread⟩ :=
    mirrors_writeclosure (c := .create plainProto) storable_plainProto rfl []
  have hr := hread []
  rw [List.append_nil] at hr
  refine ⟨bs, hw, hr, ?_⟩
  exact (readclosure_behavesLike_iff (.create plainProto) (.create plainProto) [] bs []
    storable_plainProto (by decide) hw hr).mpr
    ⟨fun o ho => @eq_null_of_needed_create _ plainProto none o ho, .inl rfl⟩

/-- `a` is null when the closure that was read is called without arguments. -/
theorem readclosure_loses_default : ∃ bs c',
    sq_writeclosure defaultClosure [] = .ok bs ∧ sq_readclosure win64 bs = .ok (c', []) ∧
    ¬ BehavesLike defaultClosure (c'.bindEnv defaultClosure.env) := by
  obtain ⟨bs, hw, hread⟩ :=
    mirrors_writeclosure (c := defaultClosure) storable_defaultProto rfl []
  have hr := hread []
  rw [List.append_nil] at hr
  refine ⟨bs, _, hw, hr, fun hlike => ?_⟩
  have hneeded := hlike.needed_eq rfl (by decide)
  have hone : SQObject.data 0x2 1 ∈ defaultClosure.needed := by decide
  rw [hneeded] at hone
  cases eq_null_of_needed_create hone

end Example

end Squirt.ClosureStream
