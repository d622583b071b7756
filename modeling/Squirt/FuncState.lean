import Squirt.VmObjects

/-!
# Registers and parameters of a function under compilation

`SQFuncState` as far as its local variables, its targets and its parameters go. An
`Except.error` is a call of `Error`, or an access to an empty `_targetstack`.
-/

namespace Squirt

section Except

variable {ε α β : Type*} {x : Except ε α} {b : β}

theorem exists_of_bind_eq_ok {f : α → Except ε β} (h : x.bind f = .ok b) :
    ∃ a, x = .ok a ∧ f a = .ok b := by
  cases x with
  | error e => cases h
  | ok a => exact ⟨a, rfl, h⟩

theorem exists_of_map_eq_ok {f : α → β} (h : x.map f = .ok b) : ∃ a, x = .ok a ∧ f a = b := by
  cases x with
  | error e => cases h
  | ok a => exact ⟨a, rfl, Except.ok.inj h⟩

end Except

/-- `_vlocals` and `_targetstack` list their last element first; a temporary has no name. -/
structure SQFuncState where
  vlocals : List (Option String)
  targetstack : List ℕ
  stacksize : ℕ
  parameters : List String
  /-- registers of the enclosing function -/
  defaultparams : List ℕ
  varparams : Bool
  bgenerator : Bool

namespace SQFuncState

def init : SQFuncState where
  vlocals := []
  targetstack := []
  stacksize := 0
  parameters := []
  defaultparams := []
  varparams := false
  bgenerator := false

def allocStackPos (fs : SQFuncState) : Except String (ℕ × SQFuncState) :=
  let npos := fs.vlocals.length
  let fs := { fs with vlocals := none :: fs.vlocals }
  if fs.vlocals.length > fs.stacksize then
    if fs.stacksize > MAX_FUNC_STACKSIZE then .error "internal compiler error: too many locals"
    else .ok (npos, { fs with stacksize := fs.vlocals.length })
  else .ok (npos, fs)

def pushTarget (fs : SQFuncState) : Except String (ℕ × SQFuncState) :=
  fs.allocStackPos.map fun (n, fs) => (n, { fs with targetstack := n :: fs.targetstack })

/-- `PushTarget(n)` -/
def pushTargetAt (fs : SQFuncState) (n : ℕ) : SQFuncState :=
  { fs with targetstack := n :: fs.targetstack }

def isLocal (fs : SQFuncState) (stkpos : ℕ) : Bool :=
  match fs.vlocals.reverse[stkpos]? with
  | some (some _) => true
  | _ => false

/-- `PopTarget`: a temporary goes, and it is taken to be the last one. -/
def popTarget (fs : SQFuncState) : Except String (ℕ × SQFuncState) :=
  match fs.targetstack with
  | [] => .error "_targetstack"
  | npos :: targets =>
    let vlocals := if fs.isLocal npos then fs.vlocals else fs.vlocals.tail
    .ok (npos, { fs with vlocals := vlocals, targetstack := targets })

def pushLocalVariable (fs : SQFuncState) (name : String) : SQFuncState :=
  { fs with
    vlocals := some name :: fs.vlocals
    stacksize := max fs.stacksize (fs.vlocals.length + 1) }

def addParameter (fs : SQFuncState) (name : String) : SQFuncState :=
  { fs.pushLocalVariable name with parameters := fs.parameters ++ [name] }

def addDefaultParam (fs : SQFuncState) (trg : ℕ) : SQFuncState :=
  { fs with defaultparams := fs.defaultparams ++ [trg] }

def buildProto (fs : SQFuncState) : SQFunctionProto where
  nparameters := fs.parameters.length
  stacksize := fs.stacksize
  ndefaultparams := fs.defaultparams.length
  varparams := fs.varparams
  bgenerator := fs.bgenerator

section Parameters

variable (fs : SQFuncState) (name : String) (trg : ℕ)

@[simp] theorem addParameter_vlocals :
    (fs.addParameter name).vlocals = some name :: fs.vlocals := rfl

@[simp] theorem addParameter_stacksize :
    (fs.addParameter name).stacksize = max fs.stacksize (fs.vlocals.length + 1) := rfl

@[simp] theorem addParameter_parameters :
    (fs.addParameter name).parameters = fs.parameters ++ [name] := rfl

@[simp] theorem addParameter_defaultparams :
    (fs.addParameter name).defaultparams = fs.defaultparams := rfl

@[simp] theorem addParameter_varparams : (fs.addParameter name).varparams = fs.varparams := rfl

@[simp] theorem addDefaultParam_vlocals : (fs.addDefaultParam trg).vlocals = fs.vlocals := rfl

@[simp] theorem addDefaultParam_stacksize :
    (fs.addDefaultParam trg).stacksize = fs.stacksize := rfl

@[simp] theorem addDefaultParam_parameters :
    (fs.addDefaultParam trg).parameters = fs.parameters := rfl

@[simp] theorem addDefaultParam_defaultparams :
    (fs.addDefaultParam trg).defaultparams = fs.defaultparams ++ [trg] := rfl

@[simp] theorem addDefaultParam_varparams :
    (fs.addDefaultParam trg).varparams = fs.varparams := rfl

end Parameters

end SQFuncState
end Squirt
