import Mathlib.Data.Nat.Bits
import Mathlib.Data.List.Basic

/-!
# `SQTable`: nodes, chains and the free cursor

The node array is a list, a node pointer an index into it, and `none` is the null
key. Loops over the chains carry a step budget of one array length and answer `none`
when it is spent; that this never happens is a theorem about reachable tables, not a
convention of the model. `HashObj` is an arbitrary function on non-null keys. The
null key hashes to `hashptr(NULL)`.
-/

namespace Squirt

/-- `_HashNode`. A default node is the one its constructor builds. -/
structure HashNode (K V : Type*) where
  val : V
  key : Option K
  next : Option ℕ
  deriving DecidableEq

/-- `_numofnodes` is the length of `nodes`; `firstfree` is an index into it. -/
structure SQTable (K V : Type*) where
  nodes : List (HashNode K V)
  firstfree : ℕ
  usednodes : ℕ
  deriving DecidableEq

namespace SQTable

def MINPOWER2 : ℕ := 4

variable {K V : Type*} [Inhabited V]

def emptyNode : HashNode K V := ⟨default, none, none⟩

def numofnodes (t : SQTable K V) : ℕ := t.nodes.length

def node (t : SQTable K V) (i : ℕ) : HashNode K V := t.nodes.getD i emptyNode

def setNode (t : SQTable K V) (i : ℕ) (n : HashNode K V) : SQTable K V :=
  { t with nodes := t.nodes.set i n }

def setNext (t : SQTable K V) (i : ℕ) (j : Option ℕ) : SQTable K V :=
  t.setNode i { t.node i with next := j }

def setKey (t : SQTable K V) (i : ℕ) (k : Option K) : SQTable K V :=
  t.setNode i { t.node i with key := k }

def setVal (t : SQTable K V) (i : ℕ) (v : V) : SQTable K V :=
  t.setNode i { t.node i with val := v }

def hashObj (hash : K → ℕ) : Option K → ℕ
  | some k => hash k
  | none => 0

/-- `HashObj(key) & (_numofnodes - 1)` -/
def mainPosition (hash : K → ℕ) (t : SQTable K V) (key : Option K) : ℕ :=
  hashObj hash key &&& (t.numofnodes - 1)

/-- `AllocNodes`, with the `_usednodes = 0` that each of its callers adds. -/
def allocNodes (nSize : ℕ) : SQTable K V :=
  ⟨List.replicate nSize emptyNode, nSize - 1, 0⟩

/-- `while(nInitialSize>pow2size)pow2size=pow2size<<1;` -/
def pow2size (nInitialSize : ℕ) : ℕ → ℕ → ℕ
  | 0, p => p
  | fuel + 1, p => if nInitialSize > p then pow2size nInitialSize fuel (p <<< 1) else p

def create (nInitialSize : ℕ) : SQTable K V :=
  allocNodes (pow2size nInitialSize nInitialSize MINPOWER2)

variable [DecidableEq K]

/-- The chain walk of `_Get`. -/
def getLoop (t : SQTable K V) (key : Option K) : ℕ → ℕ → Option (Option ℕ)
  | 0, _ => none
  | fuel + 1, i =>
    if (t.node i).key = key then some (some i)
    else match (t.node i).next with
      | some j => getLoop t key fuel j
      | none => some none

/-- `_Get(key, HashObj(key) & (_numofnodes - 1))` -/
def _Get (hash : K → ℕ) (t : SQTable K V) (key : Option K) : Option (Option ℕ) :=
  t.getLoop key t.numofnodes (t.mainPosition hash key)

/-- `while (othern->next != mp) { assert(othern->next != NULL); othern = othern->next; }` -/
def findPrevious (t : SQTable K V) (mp : ℕ) : ℕ → ℕ → Option ℕ
  | 0, _ => none
  | fuel + 1, othern =>
    if (t.node othern).next = some mp then some othern
    else (t.node othern).next.bind (findPrevious t mp fuel)

/-- `NewSlot` from the failed search to `mp->key = key`: the node that now holds the
key comes back with the table. -/
def placeKey (hash : K → ℕ) (t : SQTable K V) (key : K) : Option (SQTable K V × ℕ) :=
  let mp := t.mainPosition hash (some key)
  match (t.node mp).key with
  | none => some (t.setKey mp (some key), mp)
  | some colliding =>
    let n := t.firstfree
    let othern := t.mainPosition hash (some colliding)
    if n < mp ∧ othern ≠ mp then
      (t.findPrevious mp t.numofnodes othern).map fun prev =>
        let t₁ := t.setNext prev (some n)
        let t₂ := t₁.setNode n (t₁.node mp)
        (t₂.setNode mp ⟨default, some key, none⟩, mp)
    else
      let t₁ := t.setNext n (t.node mp).next
      some ((t₁.setNext mp (some n)).setKey n (some key), n)

/-- The loop that corrects `firstfree`; `none` when it cannot be decremented further. -/
def correctFirstfree (t : SQTable K V) : ℕ → Option ℕ
  | 0 => if (t.node 0).key = none ∧ (t.node 0).next = none then some 0 else none
  | i + 1 =>
    if (t.node (i + 1)).key = none ∧ (t.node (i + 1)).next = none then some (i + 1)
    else correctFirstfree t i

/-- The size that `Rehash` allocates, `none` when it returns at once. -/
def rehashSize (t : SQTable K V) (force : Bool) : Option ℕ :=
  let oldsize := if t.numofnodes < 4 then 4 else t.numofnodes
  let nelems := t.usednodes
  if nelems ≥ oldsize - oldsize / 4 then some (oldsize * 2)
  else if nelems ≤ oldsize / 4 ∧ oldsize > MINPOWER2 then some (oldsize / 2)
  else if force then some oldsize
  else none

mutual

/-- `NewSlot`. The fuel bounds the nesting of `NewSlot` and `Rehash` calls. -/
def newSlot (hash : K → ℕ) : ℕ → SQTable K V → K → V → Option (SQTable K V × Bool)
  | 0, _, _, _ => none
  | fuel + 1, t, key, val =>
    (t._Get hash (some key)).bind fun
      | some n => some (t.setVal n val, false)
      | none =>
        (t.placeKey hash key).bind fun (t₁, mp) =>
          match t₁.correctFirstfree t₁.firstfree with
          | some ff =>
            some ({ t₁.setVal mp val with firstfree := ff, usednodes := t₁.usednodes + 1 }, true)
          | none =>
            (rehash hash fuel { t₁ with firstfree := 0 } true).bind fun t₂ =>
              newSlot hash fuel t₂ key val

/-- `Rehash`: every node with a key goes into the new array through `NewSlot`. -/
def rehash (hash : K → ℕ) : ℕ → SQTable K V → Bool → Option (SQTable K V)
  | 0, _, _ => none
  | fuel + 1, t, force =>
    match t.rehashSize force with
    | none => some t
    | some nSize =>
      (List.range (if t.numofnodes < 4 then 4 else t.numofnodes)).foldlM (fun nt i =>
        match (t.node i).key with
        | none => some nt
        | some k => (newSlot hash fuel nt k (t.node i).val).map Prod.fst) (allocNodes nSize)

end

/-- The budget under which the `NewSlot`/`Rehash` recursion of a reachable table ends. -/
def depth : ℕ := 3

def get (hash : K → ℕ) (realval : V → V) (t : SQTable K V) (key : Option K) : Option (Option V) :=
  match key with
  | none => some none
  | some k => (t._Get hash (some k)).map fun n => n.map fun i => realval (t.node i).val

def set (hash : K → ℕ) (t : SQTable K V) (key : Option K) (val : V) :
    Option (SQTable K V × Bool) :=
  (t._Get hash key).map fun
    | some n => (t.setVal n val, true)
    | none => (t, false)

def remove (hash : K → ℕ) (t : SQTable K V) (key : Option K) : Option (SQTable K V) :=
  (t._Get hash key).bind fun
    | some n =>
      rehash hash depth
        { t.setNode n ⟨default, none, (t.node n).next⟩ with usednodes := t.usednodes - 1 } false
    | none => some t

/-- `Next` from index `idx`: the index for the next iteration with the entry found,
`none` for the result `-1`. -/
def nextFrom (t : SQTable K V) : ℕ → ℕ → Option (ℕ × K × V)
  | 0, _ => none
  | fuel + 1, idx =>
    if idx < t.numofnodes then
      match (t.node idx).key with
      | some k => some (idx + 1, k, (t.node idx).val)
      | none => nextFrom t fuel (idx + 1)
    else none

/-- `Next(getweakrefs, refpos, outkey, outval)` -/
def next (realval : V → V) (t : SQTable K V) (getweakrefs : Bool) (refpos : Option ℕ) :
    Option (ℕ × K × V) :=
  (t.nextFrom (t.numofnodes + 1) (refpos.getD 0)).map fun (idx, k, v) =>
    (idx, k, if getweakrefs then v else realval v)

/-- The iteration protocol: call `Next` from the null position until it answers `-1`. -/
def iterate (realval : V → V) (t : SQTable K V) (getweakrefs : Bool) :
    ℕ → Option ℕ → Option (List (K × V))
  | 0, _ => none
  | fuel + 1, refpos =>
    match t.next realval getweakrefs refpos with
    | none => some []
    | some (idx, k, v) => (iterate realval t getweakrefs fuel (some idx)).map ((k, v) :: ·)

def countUsed (t : SQTable K V) : ℕ := t.usednodes

def clearNodes (t : SQTable K V) : SQTable K V :=
  { t with nodes := t.nodes.map fun n => ⟨default, none, n.next⟩ }

def clear (hash : K → ℕ) (t : SQTable K V) : Option (SQTable K V) :=
  rehash hash depth { t.clearNodes with usednodes := 0 } true

/-- `Clone`: every entry that `Next(true, ..)` yields is inserted into a table created
with the node count of the original. -/
def clone (hash : K → ℕ) (realval : V → V) (t : SQTable K V) : Option (SQTable K V) :=
  (t.iterate realval true (t.numofnodes + 1) (some 0)).bind fun entries =>
    entries.foldlM (fun nt (e : K × V) => (newSlot hash depth nt e.1 e.2).map Prod.fst)
      (create t.numofnodes)

end SQTable
end Squirt
