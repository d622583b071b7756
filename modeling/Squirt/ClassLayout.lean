import Squirt.TableMap

/-!
# Classes and instances

`SQClass::NewSlot`, the creation of classes and instances, and access to the values of an
instance. The table of the members is the finite map that it stands for. Classes and instances
are referred to by number; the attributes, user data and release hooks of both are not here.
-/

namespace Squirt

open SQTable (FinMap)

def MEMBER_TYPE_METHOD : ℕ := 0x01000000
def MEMBER_TYPE_FIELD : ℕ := 0x02000000

def isfield (o : ℕ) : Bool := o &&& MEMBER_TYPE_FIELD != 0

def make_method_idx (i : ℕ) : ℕ := MEMBER_TYPE_METHOD ||| i

def make_field_idx (i : ℕ) : ℕ := MEMBER_TYPE_FIELD ||| i

def member_idx (o : ℕ) : ℕ := o &&& 0x00FFFFFF

/-- What `NewSlot` finds out about keys and values. -/
structure ClassObjects (Key Val : Type*) where
  isClosure : Val → Bool
  isNativeClosure : Val → Bool
  /-- a clone of a closure, with its `_base` -/
  withBase : Val → ℕ → Val
  /-- `_realval(o)` -/
  realval : Val → Val
  /-- `GetMetaMethodIdxByName`, none for -1 -/
  metamethodIdx : Key → Option ℕ
  /-- `ss->_constructoridx` -/
  constructor : Key

/-- A null metamethod is none. -/
structure SQClass (Key Val : Type*) where
  members : FinMap Key ℕ
  base : Option ℕ
  defaultvalues : List Val
  methods : List Val
  metamethods : ℕ → Option Val
  locked : Bool
  constructoridx : ℤ

/-- `cls` is `_class`. -/
structure SQInstance (Val : Type*) where
  cls : ℕ
  values : List Val

structure ClassHeap (Key Val : Type*) where
  classes : List (SQClass Key Val)
  instances : List (SQInstance Val)

variable {Key Val : Type*}

namespace SQClass

/-- `SQClass(ss, base)`, the base with its number -/
def create : Option (ℕ × SQClass Key Val) → SQClass Key Val
  | none => ⟨∅, none, [], [], fun _ => none, false, -1⟩
  | some (n, base) => { base with base := some n, locked := false }

variable [DecidableEq Key] (objects : ClassObjects Key Val) (c : SQClass Key Val)

/-- `NewSlot` of a value that belongs to the static table; `temp` is the member so far. -/
def newMethod (key : Key) (val : Val) (temp : Option ℕ) : SQClass Key Val :=
  let isFunction := objects.isClosure val || objects.isNativeClosure val
  match if isFunction then objects.metamethodIdx key else none with
  | some mmidx => { c with metamethods := Function.update c.metamethods mmidx (some val) }
  | none =>
    let theval := match c.base with
      | some base => if objects.isClosure val then objects.withBase val base else val
      | none => val
    match temp with
    | none =>
      { c with
        constructoridx :=
          if key = objects.constructor then c.methods.length else c.constructoridx
        members := c.members.insert key (make_method_idx c.methods.length)
        methods := c.methods ++ [theval] }
    | some temp => { c with methods := c.methods.set (member_idx temp) theval }

/-- `NewSlot(ss, key, val, bstatic)` -/
def newSlot (key : Key) (val : Val) (bstatic : Bool) : SQClass Key Val × Bool :=
  let belongs_to_static_table :=
    objects.isClosure val || objects.isNativeClosure val || bstatic
  if c.locked && !belongs_to_static_table then (c, false)
  else
    let temp := c.members.lookup key
    match temp.filter isfield with
    | some temp => ({ c with defaultvalues := c.defaultvalues.set (member_idx temp) val }, true)
    | none =>
      if belongs_to_static_table then (c.newMethod objects key val temp, true)
      else ({ c with
        members := c.members.insert key (make_field_idx c.defaultvalues.length)
        defaultvalues := c.defaultvalues ++ [val] }, true)

def get (key : Key) : Option Val :=
  (c.members.lookup key).bind fun idx =>
    if isfield idx then (c.defaultvalues[member_idx idx]?).map objects.realval
    else c.methods[member_idx idx]?

end SQClass

/-- `Lock()`; bases come before what derives from them. -/
def lock (classes : List (SQClass Key Val)) : ℕ → ℕ → List (SQClass Key Val)
  | 0, _ => classes
  | fuel + 1, n =>
    match classes[n]? with
    | none => classes
    | some c =>
      let classes := classes.set n { c with locked := true }
      match c.base with
      | none => classes
      | some base => lock classes fuel base

namespace ClassHeap

variable (s : ClassHeap Key Val)

/-- `SQClass::Create(ss, base)` -/
def createClass (base : Option ℕ) : Option (ClassHeap Key Val) :=
  match base with
  | none => some { s with classes := s.classes ++ [.create none] }
  | some n => (s.classes[n]?).map fun c =>
    { s with classes := s.classes ++ [.create (some (n, c))] }

/-- `SQInstance::Create(ss, theclass)` -/
def instantiate (n : ℕ) : Option (ClassHeap Key Val) :=
  (s.classes[n]?).map fun c => { s with instances := s.instances ++ [⟨n, c.defaultvalues⟩] }

def createInstance (n : ℕ) : Option (ClassHeap Key Val) :=
  (s.classes[n]?).bind fun c =>
    let s := if !c.locked then { s with classes := lock s.classes (n + 1) n } else s
    s.instantiate n

/-- `SQInstance::Clone(ss)`: as many values as the class has default values -/
def clone (j : ℕ) : Option (ClassHeap Key Val) :=
  (s.instances[j]?).bind fun i => (s.classes[i.cls]?).map fun c =>
    { s with instances := s.instances ++ [⟨i.cls, i.values.take c.defaultvalues.length⟩] }

variable [DecidableEq Key] (objects : ClassObjects Key Val)

def newSlot (n : ℕ) (key : Key) (val : Val) (bstatic : Bool) : Option (ClassHeap Key Val × Bool) :=
  (s.classes[n]?).map fun c =>
    let (c, ok) := c.newSlot objects key val bstatic
    ({ s with classes := s.classes.set n c }, ok)

def get (j : ℕ) (key : Key) : Option Val :=
  (s.instances[j]?).bind fun i => (s.classes[i.cls]?).bind fun c =>
    (c.members.lookup key).bind fun idx =>
      if isfield idx then (i.values[member_idx idx]?).map objects.realval
      else c.methods[member_idx idx]?

def set (j : ℕ) (key : Key) (val : Val) : Option (ClassHeap Key Val × Bool) :=
  (s.instances[j]?).bind fun i => (s.classes[i.cls]?).map fun c =>
    match (c.members.lookup key).filter isfield with
    | some idx =>
      ({ s with instances := s.instances.set j { i with values := i.values.set (member_idx idx) val } },
        true)
    | none => (s, false)

/-- What the operations lead to. -/
inductive Reachable : ClassHeap Key Val → Prop
  | empty : Reachable ⟨[], []⟩
  | createClass {s s' : ClassHeap Key Val} {base : Option ℕ} (h : Reachable s)
    (hs : s.createClass base = some s') : Reachable s'
  | newSlot {s s' : ClassHeap Key Val} {n : ℕ} {key : Key} {val : Val} {bstatic ok : Bool}
    (h : Reachable s) (hs : s.newSlot objects n key val bstatic = some (s', ok)) : Reachable s'
  | createInstance {s s' : ClassHeap Key Val} {n : ℕ} (h : Reachable s)
    (hs : s.createInstance n = some s') : Reachable s'
  | clone {s s' : ClassHeap Key Val} {j : ℕ} (h : Reachable s) (hs : s.clone j = some s') :
    Reachable s'
  | set {s s' : ClassHeap Key Val} {j : ℕ} {key : Key} {val : Val} {ok : Bool} (h : Reachable s)
    (hs : s.set j key val = some (s', ok)) : Reachable s'

end ClassHeap

end Squirt
