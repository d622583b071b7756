import Mathlib.Logic.Function.Basic
import Mathlib.Data.List.Basic

/-!
# The collector of unreachable objects

The objects with what they refer to, the two chains they are in, `RunMark` and
`ResurrectUnreachable`. Objects are referred to by address.
-/

namespace Squirt.Collector

/-! ## Objects -/

/-- `OT_NULL`, `OT_INTEGER` and so on -/
inductive SQObjectType
  | null | integer | float | bool | string | userpointer | weakref
  | table | array | userdata | closure | nativeclosure | generator | thread | clazz | inst
  | outer | funcproto
  deriving DecidableEq

structure SQObjectPtr where
  type : SQObjectType
  /-- the address of an object, or a value itself -/
  unVal : ℕ
  deriving DecidableEq

def SQObjectPtr.null : SQObjectPtr := ⟨.null, 0⟩

structure SQTable where
  delegate : Option ℕ
  /-- the keys and values of the nodes, free ones with null -/
  nodes : List (SQObjectPtr × SQObjectPtr)

structure SQArray where
  values : List SQObjectPtr

structure SQUserData where
  delegate : Option ℕ

/-- There are as many outer values and default parameters as the function has. -/
structure SQClosure where
  base : Option ℕ
  function : ℕ
  outervalues : List SQObjectPtr
  defaultparams : List SQObjectPtr

structure SQNativeClosure where
  outervalues : List SQObjectPtr

structure SQGenerator where
  closure : SQObjectPtr
  stack : List SQObjectPtr

structure SQVM where
  lasterror : SQObjectPtr
  errorhandler : SQObjectPtr
  debughookClosure : SQObjectPtr
  roottable : SQObjectPtr
  tempReg : SQObjectPtr
  stack : List SQObjectPtr
  /-- the closures of the frames, and how many frames are in use -/
  callsstack : List SQObjectPtr
  callsstacksize : ℕ

structure SQClassMember where
  val : SQObjectPtr
  attrs : SQObjectPtr

structure SQClass where
  /-- none after `Finalize` only -/
  members : Option ℕ
  base : Option ℕ
  defaultvalues : List SQClassMember
  methods : List SQClassMember
  metamethods : List SQObjectPtr
  attributes : SQObjectPtr

structure SQInstance where
  /-- none after `Finalize` only -/
  clazz : Option ℕ
  values : List SQObjectPtr

structure SQOuter where
  /-- `_valptr == &_value` -/
  closed : Bool
  value : SQObjectPtr

structure SQFunctionProto where
  literals : List SQObjectPtr
  functions : List SQObjectPtr

inductive SQCollectable
  | table (t : SQTable)
  | array (a : SQArray)
  | userdata (u : SQUserData)
  | closure (c : SQClosure)
  | nativeclosure (c : SQNativeClosure)
  | generator (g : SQGenerator)
  | thread (v : SQVM)
  | clazz (c : SQClass)
  | inst (i : SQInstance)
  | outer (o : SQOuter)
  | funcproto (f : SQFunctionProto)

def SQCollectable.getType : SQCollectable → SQObjectType
  | table _ => .table
  | array _ => .array
  | userdata _ => .userdata
  | closure _ => .closure
  | nativeclosure _ => .nativeclosure
  | generator _ => .generator
  | thread _ => .thread
  | clazz _ => .clazz
  | inst _ => .inst
  | outer _ => .outer
  | funcproto _ => .funcproto

/-! ## What is marked with an object -/

/-- The types that `MarkObject` has a case for -/
def SQObjectType.isCollectable : SQObjectType → Bool
  | table | array | userdata | closure | nativeclosure | generator | thread | clazz | .inst
  | outer | funcproto => true
  | null | integer | float | bool | string | userpointer | weakref => false

/-- `MarkObject`: the address whose `Mark` is called, if any -/
def markObject (o : SQObjectPtr) : List ℕ := if o.type.isCollectable then [o.unVal] else []

theorem eq_of_mem_markObject {o : SQObjectPtr} {i : ℕ} (h : i ∈ markObject o) : i = o.unVal := by
  unfold markObject at h
  split at h
  · exact List.mem_singleton.mp h
  · cases h

def SQVM.marks (v : SQVM) : List ℕ :=
  markObject v.lasterror ++ markObject v.errorhandler ++ markObject v.debughookClosure ++
    markObject v.roottable ++ markObject v.tempReg ++ v.stack.flatMap markObject ++
    (v.callsstack.take v.callsstacksize).flatMap markObject

def SQArray.marks (a : SQArray) : List ℕ := a.values.flatMap markObject

def SQTable.marks (t : SQTable) : List ℕ :=
  t.delegate.toList ++ t.nodes.flatMap fun n => markObject n.1 ++ markObject n.2

def SQClassMember.marks (m : SQClassMember) : List ℕ := markObject m.val ++ markObject m.attrs

def SQClass.marks (c : SQClass) : List ℕ :=
  c.members.toList ++ c.base.toList ++ markObject c.attributes ++
    c.defaultvalues.flatMap SQClassMember.marks ++ c.methods.flatMap SQClassMember.marks ++
    c.metamethods.flatMap markObject

/-- As many values are marked as the class has default values. -/
def SQInstance.marks (nvalues : ℕ → ℕ) (i : SQInstance) : List ℕ :=
  i.clazz.toList ++ (i.values.take (i.clazz.elim 0 nvalues)).flatMap markObject

def SQGenerator.marks (g : SQGenerator) : List ℕ :=
  g.stack.flatMap markObject ++ markObject g.closure

def SQFunctionProto.marks (f : SQFunctionProto) : List ℕ :=
  f.literals.flatMap markObject ++ f.functions.flatMap markObject

def SQClosure.marks (c : SQClosure) : List ℕ :=
  c.base.toList ++ c.function :: c.outervalues.flatMap markObject ++
    c.defaultparams.flatMap markObject

def SQNativeClosure.marks (c : SQNativeClosure) : List ℕ := c.outervalues.flatMap markObject

/-- An open outer marks nothing: its value is on the stack. -/
def SQOuter.marks (o : SQOuter) : List ℕ := if o.closed then markObject o.value else []

def SQUserData.marks (u : SQUserData) : List ℕ := u.delegate.toList

/-- What `Mark` calls `Mark` of, in this order -/
def SQCollectable.marks (nvalues : ℕ → ℕ) : SQCollectable → List ℕ
  | table t => t.marks
  | array a => a.marks
  | userdata u => u.marks
  | closure c => c.marks
  | nativeclosure c => c.marks
  | generator g => g.marks
  | thread v => v.marks
  | clazz c => c.marks
  | inst i => i.marks nvalues
  | outer o => o.marks
  | funcproto f => f.marks

/-! ## Chains -/

/-- `_next` and `_prev` of every object -/
structure Links where
  next : ℕ → Option ℕ
  prev : ℕ → Option ℕ

/-- `AddToChain`, with the new first object -/
def addToChain (links : Links) (chain : Option ℕ) (c : ℕ) : Links × Option ℕ :=
  let links := { links with prev := Function.update links.prev c none }
  let links := { links with next := Function.update links.next c chain }
  let links := match chain with
    | some first => { links with prev := Function.update links.prev first (some c) }
    | none => links
  (links, some c)

/-- `RemoveFromChain`, with the new first object -/
def removeFromChain (links : Links) (chain : Option ℕ) (c : ℕ) : Links × Option ℕ :=
  let (links, chain) := match links.prev c with
    | some p => ({ links with next := Function.update links.next p (links.next c) }, chain)
    | none => (links, links.next c)
  let links := match links.next c with
    | some n => { links with prev := Function.update links.prev n (links.prev c) }
    | none => links
  ({ next := Function.update links.next c none, prev := Function.update links.prev c none }, chain)

/-! ## Marking -/

/-- The objects, and what of `SQSharedState` the collector changes -/
structure Heap where
  object : ℕ → SQCollectable
  links : Links
  /-- `MARK_FLAG` of `_uiRef` -/
  marked : ℕ → Bool
  gcChain : Option ℕ

namespace Heap

/-- `_defaultvalues.size()` of a class -/
def nvalues (h : Heap) (c : ℕ) : ℕ :=
  match h.object c with
  | .clazz c => c.defaultvalues.length
  | _ => 0

/-- What `Mark` of the object calls `Mark` of -/
def marks (h : Heap) (i : ℕ) : List ℕ := (h.object i).marks h.nvalues

end Heap

/-- The heap and the chain of the marked objects -/
structure Marking where
  heap : Heap
  chain : Option ℕ

namespace Marking

/-- `_uiRef|=MARK_FLAG` -/
def setMark (s : Marking) (i : ℕ) : Marking :=
  { s with heap := { s.heap with marked := Function.update s.heap.marked i true } }

@[simp] theorem marked_setMark (s : Marking) (i j : ℕ) :
    (s.setMark i).heap.marked j = if j = i then true else s.heap.marked j :=
  Function.update_apply ..

def endMark (s : Marking) (i : ℕ) : Marking :=
  let (links, gcChain) := removeFromChain s.heap.links s.heap.gcChain i
  let (links, chain) := addToChain links s.chain i
  ⟨{ s.heap with links := links, gcChain := gcChain }, chain⟩

end Marking

/-- `Mark`; none when the depth runs out. -/
def mark : ℕ → ℕ → Marking → Option Marking
  | 0, _, _ => none
  | depth + 1, i, s =>
    if s.heap.marked i then some s
    else do
      let s ← (s.heap.marks i).foldlM (fun s j => mark depth j s) (s.setMark i)
      return s.endMark i

/-- What `RunMark` starts from -/
structure Roots where
  rootVm : ℕ
  /-- the objects of the nodes of `_refs_table` -/
  refsTable : List SQObjectPtr
  registry : SQObjectPtr
  consts : SQObjectPtr
  metamethodsmap : SQObjectPtr
  tableDefaultDelegate : SQObjectPtr
  arrayDefaultDelegate : SQObjectPtr
  stringDefaultDelegate : SQObjectPtr
  numberDefaultDelegate : SQObjectPtr
  generatorDefaultDelegate : SQObjectPtr
  threadDefaultDelegate : SQObjectPtr
  closureDefaultDelegate : SQObjectPtr
  classDefaultDelegate : SQObjectPtr
  instanceDefaultDelegate : SQObjectPtr
  weakrefDefaultDelegate : SQObjectPtr

/-- What `RunMark` calls `Mark` of, in this order -/
def Roots.marks (r : Roots) : List ℕ :=
  r.rootVm :: r.refsTable.flatMap markObject ++ List.flatMap markObject
    [r.registry, r.consts, r.metamethodsmap, r.tableDefaultDelegate, r.arrayDefaultDelegate,
      r.stringDefaultDelegate, r.numberDefaultDelegate, r.generatorDefaultDelegate,
      r.threadDefaultDelegate, r.closureDefaultDelegate, r.classDefaultDelegate,
      r.instanceDefaultDelegate, r.weakrefDefaultDelegate]

def runMark (depth : ℕ) (roots : Roots) (h : Heap) : Option Marking :=
  roots.marks.foldlM (fun s j => mark depth j s) ⟨h, none⟩

/-! ## `ResurrectUnreachable` -/

namespace Heap

/-- `SQArray::Create` of an empty array, at an address that is not in use -/
def createArray (h : Heap) (ret : ℕ) : Heap :=
  let links : Links :=
    ⟨Function.update h.links.next ret none, Function.update h.links.prev ret none⟩
  let (links, gcChain) := addToChain links h.gcChain ret
  { object := Function.update h.object ret (.array ⟨[]⟩), links := links,
    marked := Function.update h.marked ret false, gcChain := gcChain }

def append (h : Heap) (ret : ℕ) (o : SQObjectPtr) : Heap :=
  match h.object ret with
  | .array a => { h with object := Function.update h.object ret (.array ⟨a.values ++ [o]⟩) }
  | _ => h

/-- The loop over the unreachable objects, from `t` on; it ends with the last and their number. -/
def resurrectLoop (ret : ℕ) : ℕ → Option ℕ → Option ℕ → ℕ → Heap → Option (Heap × Option ℕ × ℕ)
  | _, none, rlast, n, h => some (h, rlast, n)
  | 0, some _, _, _, _ => none
  | fuel + 1, some t, _, n, h =>
    let type := (h.object t).getType
    let h := if type ≠ .funcproto ∧ type ≠ .outer then h.append ret ⟨type, t⟩ else h
    resurrectLoop ret fuel (h.links.next t) (some t) (n + 1) h

/-- `UnMark` of the objects from one on -/
def unMarkLoop : ℕ → Option ℕ → Heap → Option Heap
  | _, none, h => some h
  | 0, some _, _ => none
  | fuel + 1, some t, h =>
    unMarkLoop fuel (h.links.next t) { h with marked := Function.update h.marked t false }

end Heap

/-- The unreachable objects are put in front of the others again. -/
def rejoin (h : Heap) (rlast resurrected : Option ℕ) : Heap :=
  match rlast with
  | none => { h with gcChain := resurrected }
  | some last =>
    let links := { h.links with next := Function.update h.links.next last h.gcChain }
    let links := match h.gcChain with
      | some first => { links with prev := Function.update links.prev first (some last) }
      | none => links
    { h with links := links, gcChain := resurrected }

/-- `ResurrectUnreachable`; `ret` is the address that a new array gets. The result is the number of
unreachable objects and what is pushed. -/
def resurrectUnreachable (fuel : ℕ) (roots : Roots) (ret : ℕ) (h : Heap) :
    Option (Heap × ℕ × SQObjectPtr) := do
  let s ← runMark fuel roots h
  let resurrected := s.heap.gcChain
  let h := { s.heap with gcChain := s.chain }
  match resurrected with
  | none =>
    let h ← h.unMarkLoop fuel h.gcChain
    return (h, 0, .null)
  | some _ =>
    let (h, rlast, n) ← (h.createArray ret).resurrectLoop ret fuel resurrected none 0
    let h := rejoin h rlast resurrected
    let h ← h.unMarkLoop fuel h.gcChain
    return (h, n, ⟨.array, ret⟩)

end Squirt.Collector
