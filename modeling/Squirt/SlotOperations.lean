import Squirt.MetaOperations

/-!
# The operations that create slots, copies and classes

`SetDelegate`, and the functions of `SQVM` for new and deleted slots, clones, `foreach` and classes.
-/

namespace Squirt

open SQTable (FinMap)

namespace Store

variable (s : Store)

/-- The loop of `SetDelegate`: does a delegate on the way from `temp` lead to `self`? None when
there is more way than fuel. -/
def closesCycle (self : SQObject) : ℕ → Option ℕ → Option Bool
  | _, none => some false
  | 0, some _ => none
  | fuel + 1, some temp =>
    match s.delegate (.table temp) with
    | none => some false
    | some d => if self = .table d then some true else closesCycle self fuel (some d)

/-- `_delegate = mt` -/
def putDelegate (self : SQObject) (mt : Option ℕ) : Store :=
  match self with
  | .table r => { s with tables := s.tables.modify r fun t => { t with delegate := mt } }
  | .userdata r => { s with userdata := s.userdata.set r mt }
  | _ => s

def setDelegate (fuel : ℕ) (self : SQObject) (mt : Option ℕ) : Option (Store × Bool) :=
  if mt.map SQObject.table = some self then some (s, false)
  else (s.closesCycle self fuel mt).map fun cycle =>
    if cycle then (s, false) else (s.putDelegate self mt, true)

/-- `SQTable::Clone` -/
def cloneTable (fuel : ℕ) (r : ℕ) : Option (ℕ × Store) :=
  (s.tables[r]?).bind fun t =>
    let nt := s.tables.length
    let s : Store := { s with tables := s.tables ++ [⟨t.slots, none⟩] }
    (s.setDelegate fuel (.table nt) t.delegate).map fun (s, _) => (nt, s)

/-- `SQClass::Create(ss, base)`, with the table of the members -/
def createClass (base : Option ℕ) : Option (ℕ × Store) :=
  (s.heap.createClass base).map fun heap =>
    let n := s.heap.classes.length
    let attributes : ℕ → SQObject := match base with
      | some b => s.memberAttributes b
      | none => fun _ => .null
    (n, { s with
      heap := heap
      memberDelegates := s.memberDelegates ++ [base.bind fun b => (s.memberDelegates[b]?).bind id]
      attributes := Function.update s.attributes n .null
      memberAttributes := Function.update s.memberAttributes n attributes })

def setAttributes (n : ℕ) (key val : SQObject) : Store :=
  match (s.heap.classes[n]?).bind fun c => c.members.lookup key with
  | some idx =>
    let attributes := Function.update (s.memberAttributes n) idx val
    { s with memberAttributes := Function.update s.memberAttributes n attributes }
  | none => s

end Store

namespace VmOp

variable (rt : Runtime)

/-- `_cloned` of the new object -/
def cloned (self newobj : SQObject) : VmOp (Option SQObject) := do
  match ← delegatedMetaMethod newobj .cloned with
  | some closure =>
    push newobj
    push self
    match ← callMetaMethod rt closure .cloned 2 with
    | some _ => pure (some newobj)
    | none => pure none
  | none => pure (some newobj)

/-- `Clone`; the fuel is for `SetDelegate`. -/
def clone (fuel : ℕ) (self : SQObject) : VmOp (Option SQObject) :=
  match self with
  | .table r => do
    let nt ← .step fun s => s.cloneTable fuel r
    cloned rt self (.table nt)
  | .instance_ r => do
    let i ← .step fun s => (s.heap.clone r).map fun heap =>
      (s.heap.instances.length, { s with heap := heap })
    cloned rt self (.instance_ i)
  | .array r => .step fun s => (s.vm.arrays[r]?).map fun values =>
    let (vm, target) := s.vm.createArray values
    (some target, { s with vm := vm })
  | self => fail s!"cloning a {self.typeName}"

def classNewSlot (r : ℕ) (key val : SQObject) (bstatic : Bool) : VmOp Bool := do
  match ← .step fun s => (s.heap.newSlot (s.classObjects rt) r key val bstatic).map
      fun (heap, ok) => (ok, { s with heap := heap }) with
  | true => pure true
  | false =>
    if ← .read fun s => (s.heap.classes[r]?).any SQClass.locked then do
      raiseError "trying to modify a class that has already been instantiated"
      pure false
    else do
      raiseError s!"the property '{printObjVal rt key}' already exists"
      pure false

/-- `_newslot` of `self`; none when there is none -/
def metaNewSlot (self key val : SQObject) : VmOp (Option Bool) := do
  match ← delegatedMetaMethod self .newslot with
  | some closure =>
    push self
    push key
    push val
    let res ← callMetaMethod rt closure .newslot 3
    pure (some res.isSome)
  | none => pure none

def newSlot (self key val : SQObject) (bstatic : Bool) : VmOp Bool :=
  if key = .null then do
    raiseError "null cannot be used as index"
    pure false
  else match self with
    | .table r => do
      let found ← .read fun s => (s.tableGet r key).isSome
      match ← if found then pure none else metaNewSlot rt self key val with
      | some ok => pure ok
      | none =>
        .modify fun s => s.setSlots r fun slots => slots.insert key val
        pure true
    | .instance_ _ => do
      match ← metaNewSlot rt self key val with
      | some ok => pure ok
      | none =>
        raiseError "class instances do not support the new slot operator"
        pure false
    | .clazz r => classNewSlot rt r key val bstatic
    | self => do
      raiseError s!"indexing {self.typeName} with {key.typeName}"
      pure false

/-- `NewSlotA` without a metamethod -/
def newSlotAttrs (r : ℕ) (key val attrs : SQObject) (bstatic : Bool) : VmOp Bool := do
  if ← newSlot rt (.clazz r) key val bstatic then
    if attrs ≠ .null then .modify fun s => s.setAttributes r key attrs
    pure true
  else pure false

def newSlotA (self key val attrs : SQObject) (bstatic raw : Bool) : VmOp Bool :=
  match self with
  | .clazz r => do
    let mm ← .read fun s => if raw then none else
      (s.heap.classes[r]?).bind fun c => c.metamethods SQMetaMethod.newmember.idx
    match mm with
    | some closure =>
      push self
      push key
      push val
      push attrs
      push (.ofBool bstatic)
      match ← callMetaMethod rt closure .newmember 5 with
      | some res =>
        .modify fun s => { s with temp_reg := res }
        pure true
      | none => pure false
    | none => newSlotAttrs rt r key val attrs bstatic
  | _ => do
    raiseError "object must be a class"
    pure false

/-- `DeleteSlot` of a slot that there may be in the table itself -/
def deleteOwnSlot (self key : SQObject) : VmOp (Option SQObject) :=
  match self with
  | .table r => do
    match ← .read fun s => s.tableGet r key with
    | some t =>
      .modify fun s => s.setSlots r fun slots => slots.erase key
      pure (some t)
    | none =>
      raiseIdxError rt key
      pure none
  | self => fail s!"cannot delete a slot from {self.typeName}"

def deleteSlot (self key : SQObject) : VmOp (Option SQObject) :=
  match self with
  | .delegable 0x20 _ | .delegable 0x80 _ | .delegable 0x8000 _ => do
    match ← delegatedMetaMethod self .delslot with
    | some closure =>
      push self
      push key
      callMetaMethod rt closure .delslot 2
    | none => deleteOwnSlot rt self key
  | self => fail s!"attempt to delete a slot from a {self.typeName}"

/-- What `FOREACH_OP` stores and how far it jumps -/
structure Iteration where
  ok : Bool
  o2 : Option SQObject
  o3 : Option SQObject
  o4 : Option SQObject
  jump : ℤ

/-- `Next` of a container: `o4 = nrefidx`, and on to the body of the loop, or `_FINISH(exitpos)` -/
def iterate (exitpos : ℤ) : Option (ℤ × SQObject × SQObject) → Iteration
  | some (nrefidx, key, val) => ⟨true, some key, some val, some (.integer nrefidx), 1⟩
  | none => ⟨true, none, none, none, exitpos⟩

def translateIndex : SQObject → Option ℤ
  | .null => some 0
  | .integer i => some i
  | _ => none

/-- `SQArray::Next`; the index is unsigned. -/
def arrayNext (s : Store) (values : List SQObject) (idx : ℤ) : Option (ℤ × SQObject × SQObject) :=
  if 0 ≤ idx then
    (values[idx.toNat]?).map fun o => (idx + 1, .integer idx, s.realval o)
  else none

/-- `SQString::Next`, none where it reads before the string -/
def stringNext (str : String) (idx : ℤ) : Option (Option (ℤ × SQObject × SQObject)) :=
  if 0 ≤ idx then
    some ((str.toList[idx.toNat]?).map fun c => (idx + 1, .integer idx, .integer c.toNat))
  else none

/-- `SQClass::Next` -/
def classNext (s : Store) (r : ℕ) (refpos : SQObject) : Option (ℤ × SQObject × SQObject) :=
  (rt.membersNext s r refpos).bind fun (idx, key, member) =>
    (s.heap.classes[r]?).bind fun c =>
      (if isfield member then (c.defaultvalues[member_idx member]?).map s.realval
        else c.methods[member_idx member]?).map fun val => (idx, key, val)

/-- The `_nexti` of `FOREACH_OP` -/
def metaNext (fuel : ℕ) (o1 o4 : SQObject) (exitpos : ℤ) : VmOp Iteration := do
  match ← getMetaMethod o1 .nexti with
  | some closure =>
    push o1
    push o4
    match ← callMetaMethod rt closure .nexti 2 with
    | some itr =>
      if itr = .null then pure ⟨true, some itr, none, some itr, exitpos⟩
      else
        match ← get rt fuel o1 itr false DONT_FALL_BACK with
        | some val => pure ⟨true, some itr, some val, some itr, 1⟩
        | none =>
          raiseError "_nexti returned an invalid idx"
          pure ⟨false, some itr, none, some itr, 0⟩
    | none => pure ⟨false, none, none, none, 0⟩
  | none =>
    raiseError "_nexti failed"
    pure ⟨false, none, none, none, 0⟩

/-- The generator of `FOREACH_OP`; `o3` is at `dest` of the stack. -/
def resumeNext (g : ℕ) (dest : ℤ) (o1 o4 : SQObject) (exitpos : ℤ) : VmOp Iteration := do
  match ← .read fun s => (s.vm.generators[g]?).map SQGenerator.state with
  | some .dead => pure ⟨true, none, none, none, exitpos⟩
  | some .suspended =>
    let idx := match o4 with
      | .integer i => .integer (i + 1)
      | _ => SQObject.integer 0
    .step fun s => (s.vm.resume g dest).map fun (vm, _) => ((), { s with vm := vm })
    pure ⟨true, some idx, none, some idx, 0⟩
  | _ =>
    raiseError s!"cannot iterate {o1.typeName}"
    pure ⟨false, none, none, none, 0⟩

def foreachOp (fuel : ℕ) (o1 o4 : SQObject) (dest : ℤ) (exitpos : ℤ) : VmOp Iteration :=
  match o1 with
  | .table r => .read fun s => iterate exitpos ((rt.tableNext s r o4).map fun (idx, key, val) =>
    (idx, key, s.realval val))
  | .array r => .step fun s => (translateIndex o4).bind fun idx =>
    (s.vm.arrays[r]?).map fun values => (iterate exitpos (arrayNext s values idx), s)
  | .string str => .step fun s => (translateIndex o4).bind fun idx =>
    (stringNext str idx).map fun next => (iterate exitpos next, s)
  | .clazz r => .read fun s => iterate exitpos (classNext rt s r o4)
  | .delegable 0x80 _ | .delegable 0x8000 _ => do
    if ← .read fun s => s.hasDelegate o1 then metaNext rt fuel o1 o4 exitpos
    else pure ⟨false, none, none, none, 0⟩
  | .generator g => resumeNext g dest o1 o4 exitpos
  | o1 => do
    raiseError s!"cannot iterate {o1.typeName}"
    pure ⟨false, none, none, none, 0⟩

/-- The base of `CLASS_OP` -/
def baseClass (baseclass : ℤ) : VmOp (Option (Option ℕ)) :=
  if baseclass = -1 then pure (some none)
  else do
    match ← stk baseclass with
    | .clazz r => pure (some (some r))
    | o => fail s!"trying to inherit from a {o.typeName}"

def classOp (baseclass attributes : ℤ) : VmOp (Option SQObject) := do
  match ← baseClass baseclass with
  | none => pure none
  | some base =>
    let attrs ← if attributes ≠ MAX_FUNC_STACKSIZE then stk attributes else pure .null
    let n ← .step fun s => s.createClass base
    match ← .read fun s => (s.heap.classes[n]?).bind fun c =>
        c.metamethods SQMetaMethod.inherited.idx with
    | some closure =>
      push (.clazz n)
      push attrs
      let _ ← call rt .inherited closure 2
      pop 2
    | none => pure ()
    .modify fun s => { s with attributes := Function.update s.attributes n attrs }
    pure (some (.clazz n))

end VmOp

end Squirt
