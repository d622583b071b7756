import Squirt.ChainedBuckets

/-!
# `RefTable`

The nodes of the table are a list and a node pointer is an index into it; buckets and the free
list share the link of a node. `none` as a result is an assertion that fails, a null pointer that
is followed, or a loop that goes on. The references are an integer: what is decremented below zero
is not zero in the code either. The number of slots is not bounded.
-/

namespace Squirt

open ChainedBuckets

/-- `obj` is none for null. -/
structure RefNode (Obj : Type*) where
  obj : Option Obj
  refs : ℤ
  next : Option ℕ
  deriving DecidableEq

/-- `_numofslots` is the length of `nodes`. -/
structure RefTable (Obj : Type*) where
  nodes : List (RefNode Obj)
  buckets : List (Option ℕ)
  freelist : Option ℕ
  slotused : ℕ
  deriving DecidableEq

namespace RefTable

variable {Obj : Type*} (t : RefTable Obj)

def numofslots : ℕ := t.nodes.length

def node (i : ℕ) : RefNode Obj := t.nodes.getD i ⟨none, 0, none⟩

def setNode (i : ℕ) (n : RefNode Obj) : RefTable Obj := { t with nodes := t.nodes.set i n }

def next (i : ℕ) : Option ℕ := (t.node i).next

def bucket (mainpos : ℕ) : Option ℕ := t.buckets.getD mainpos none

def allocNodes (size : ℕ) : RefTable Obj where
  nodes := (List.range size).map fun n => ⟨none, 0, if n < size - 1 then some (n + 1) else none⟩
  buckets := List.replicate size none
  freelist := some 0
  slotused := 0

/-- `RefTable()` -/
def create : RefTable Obj := allocNodes 4

/-- `Add(mainpos, obj)`, with the node. -/
def addNode (mainpos : ℕ) (obj : Obj) : Option (RefTable Obj × ℕ) :=
  match t.freelist with
  | none => none
  | some newnode =>
    let n := t.node newnode
    if n.refs = 0 then
      let t' := t.setNode newnode { n with obj := some obj, next := t.bucket mainpos }
      some ({ t' with
        buckets := t.buckets.set mainpos (some newnode)
        freelist := n.next
        slotused := t.slotused + 1 }, newnode)
    else none

variable (hash : Obj → ℕ)

/-- `HashObj(obj) & (_numofslots-1)` -/
def mainpos (obj : Obj) : ℕ := hash obj &&& (t.numofslots - 1)

/-- The loop of `Resize` over the old nodes, with `nfound`. -/
def rehash (t : RefTable Obj) : List (RefNode Obj) → ℕ → Option (RefTable Obj × ℕ)
  | [], nfound => some (t, nfound)
  | n :: nodes, nfound =>
    match n.obj with
    | none => rehash t nodes nfound
    | some obj =>
      if n.refs ≠ 0 then
        (t.addNode (t.mainpos hash obj) obj).bind fun (t, nn) =>
          rehash (t.setNode nn { t.node nn with refs := n.refs }) nodes (nfound + 1)
      else none

def resize (size : ℕ) : Option (RefTable Obj) :=
  (rehash hash (allocNodes size) t.nodes 0).bind fun (t', nfound) =>
    if nfound = t.numofslots then some t' else none

variable [DecidableEq Obj]

/-- What `Get` comes back with, besides the table. -/
structure Got where
  ref : Option ℕ
  mainpos : ℕ
  prev : Option ℕ

/-- `Get(obj, mainpos, prev, add)` -/
def get (obj : Obj) (add : Bool) : Option (RefTable Obj × Got) :=
  let mainpos := t.mainpos hash obj
  match search t.next (fun ref => (t.node ref).obj = some obj) (t.numofslots + 1) none
    (t.bucket mainpos) with
  | none => none
  | some (prev, some ref) => some (t, ⟨some ref, mainpos, prev⟩)
  | some (prev, none) =>
    if add then
      if t.numofslots = t.slotused then
        if t.freelist = none then
          (t.resize hash (t.numofslots * 2)).bind fun t =>
            let mainpos := t.mainpos hash obj
            (t.addNode mainpos obj).map fun (t, ref) => (t, ⟨some ref, mainpos, prev⟩)
        else none
      else (t.addNode mainpos obj).map fun (t, ref) => (t, ⟨some ref, mainpos, prev⟩)
    else some (t, ⟨none, mainpos, prev⟩)

def addRef (obj : Obj) : Option (RefTable Obj) :=
  (t.get hash obj true).bind fun (t, got) => got.ref.map fun ref =>
    t.setNode ref { t.node ref with refs := (t.node ref).refs + 1 }

def getRefCount (obj : Obj) : Option (RefTable Obj × ℤ) :=
  (t.get hash obj true).bind fun (t, got) => got.ref.map fun ref => (t, (t.node ref).refs)

/-- The end of `Release` when no reference is left. -/
def unlink (ref mainpos : ℕ) (prev : Option ℕ) : RefTable Obj :=
  let t' := match prev with
    | some prev => t.setNode prev { t.node prev with next := t.next ref }
    | none => { t with buckets := t.buckets.set mainpos (t.next ref) }
  { t'.setNode ref { t'.node ref with obj := none, next := t.freelist } with
    freelist := some ref
    slotused := t.slotused - 1 }

def release (obj : Obj) : Option (RefTable Obj × Bool) :=
  (t.get hash obj false).bind fun (t, got) => got.ref.map fun ref =>
    let refs := (t.node ref).refs - 1
    let t := t.setNode ref { t.node ref with refs }
    if refs = 0 then (t.unlink ref got.mainpos got.prev, true) else (t, false)

/-- The calls of a host. -/
inductive Call (Obj : Type*)
  | addref (po : Obj)
  | release (po : Obj)
  | getrefcount (po : Obj)
  deriving DecidableEq

variable (refcounted : Obj → Bool)

def sq_addref (po : Obj) : Option (RefTable Obj) :=
  if refcounted po then t.addRef hash po else some t

def sq_getrefcount (po : Obj) : Option (RefTable Obj × ℤ) :=
  if refcounted po then t.getRefCount hash po else some (t, 0)

def sq_release (po : Obj) : Option (RefTable Obj × Bool) :=
  if refcounted po then t.release hash po else some (t, true)

def call : Call Obj → Option (RefTable Obj)
  | .addref po => t.sq_addref hash refcounted po
  | .release po => (t.sq_release hash refcounted po).map (·.1)
  | .getrefcount po => (t.sq_getrefcount hash refcounted po).map (·.1)

/-- Calls one after the other. -/
def calls (t : RefTable Obj) (cs : List (Call Obj)) : Option (RefTable Obj) :=
  cs.foldlM (fun t c => t.call hash refcounted c) t

end RefTable

end Squirt
