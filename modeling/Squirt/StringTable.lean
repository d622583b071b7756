import Squirt.ChainedBuckets

/-!
# `SQStringTable`

The strings in memory and the buckets of the table. A pointer is an address; a cell of the
memory is empty when nothing is allocated there. A loop along a chain has as many steps as there
are strings in the table, and one; `none` is an assertion that fails or a loop that goes on. The
number of slots is not bounded.
-/

namespace Squirt

open ChainedBuckets

/-- `val` is `_val` with its terminator. -/
structure SQString (α : Type*) where
  next : Option ℕ
  len : ℤ
  hash : ℕ
  val : List α

def SQString.chars {α : Type*} (s : SQString α) : List α := s.val.take s.len.toNat

/-- `memory` is what `SQ_MALLOC` gave out for strings. -/
structure SQStringTable (α : Type*) where
  memory : ℕ → Option (SQString α)
  strings : List (Option ℕ)
  slotused : ℕ

/-- What `Add` is called with: `chars` are the characters that can be read at `news`. -/
structure News (α : Type*) (nul : α) where
  chars : List α
  len : ℤ
  readable : if len < 0 then nul ∈ chars else len ≤ chars.length

namespace News

variable {α : Type*} [DecidableEq α] {nul : α}

def scstrlen (news : News α nul) : ℤ := (news.chars.takeWhile (· ≠ nul)).length

/-- `if(len<0) len = scstrlen(news)` -/
def length (news : News α nul) : ℤ := if news.len < 0 then news.scstrlen else news.len

def content (news : News α nul) : List α := news.chars.take news.length.toNat

end News

namespace SQStringTable

variable {α : Type*} (t : SQStringTable α)

/-- `p->_next` -/
def next (p : ℕ) : Option ℕ := (t.memory p).bind (·.next)

/-- `p->_next = q` -/
def setNext (p : ℕ) (q : Option ℕ) : SQStringTable α :=
  { t with
    memory := Function.update t.memory p ((t.memory p).map fun s => { s with next := q }) }

/-- `_strings[h]` -/
def head (h : ℕ) : Option ℕ := t.strings.getD h none

def setHead (h : ℕ) (p : Option ℕ) : SQStringTable α := { t with strings := t.strings.set h p }

def numofslots : ℕ := t.strings.length

/-- `p->_hash & (_numofslots-1)` -/
def slot (p : ℕ) : ℕ := ((t.memory p).elim 0 (·.hash)) &&& (t.numofslots - 1)

def allocNodes (size : ℕ) : SQStringTable α := { t with strings := List.replicate size none }

/-- `SQStringTable(ss)` -/
def create : SQStringTable α := allocNodes ⟨fun _ => none, [], 0⟩ 4

/-- The inner loop of `Resize`. -/
def relink (t : SQStringTable α) : ℕ → Option ℕ → Option (SQStringTable α)
  | 0, _ => none
  | fuel + 1, current =>
    match current with
    | none => some t
    | some p =>
      let next := t.next p
      let h := t.slot p
      let t := t.setNext p (t.head h)
      let t := t.setHead h (some p)
      relink t fuel next

/-- The outer loop of `Resize`, over the buckets of the old table. -/
def relinkAll (t : SQStringTable α) : List (Option ℕ) → Option (SQStringTable α)
  | [] => some t
  | p :: oldtable => (t.relink (t.slotused + 1) p).bind fun t => relinkAll t oldtable

def resize (size : ℕ) : Option (SQStringTable α) :=
  let oldtable := t.strings
  (t.allocNodes size).relinkAll oldtable

variable [DecidableEq α] {nul : α} (hash : List α → ℕ)

/-- `s->_len == len && !memcmp(news,s->_val,rsl(len))` -/
def isNews (news : News α nul) (s : ℕ) : Bool :=
  match t.memory s with
  | some s => decide (s.len = news.length ∧ s.val.take news.length.toNat = news.content)
  | none => false

/-- `Add`; `p` is the address that `SQ_MALLOC` gives out when it is called. The pointer to the
string comes back with the table. -/
def add (news : News α nul) (p : ℕ) : Option (SQStringTable α × ℕ) :=
  let newhash := hash news.content
  let h := newhash &&& (t.numofslots - 1)
  match search t.next (t.isNews news) (t.slotused + 1) none (t.head h) with
  | none => none
  | some (_, some s) => some (t, s)
  | some (_, none) =>
    let string : SQString α := ⟨t.head h, news.length, newhash, news.content ++ [nul]⟩
    let t := { t with memory := Function.update t.memory p (some string) }
    let t := t.setHead h (some p)
    let t := { t with slotused := t.slotused + 1 }
    if t.slotused > t.numofslots then (t.resize (t.numofslots * 2)).map (·, p) else some (t, p)

def remove (bs : ℕ) : Option (SQStringTable α) :=
  let h := t.slot bs
  match search t.next (· = bs) (t.slotused + 1) none (t.head h) with
  | some (prev, some s) =>
    let t := match prev with
      | some prev => t.setNext prev (t.next s)
      | none => t.setHead h (t.next s)
    some { t with slotused := t.slotused - 1, memory := Function.update t.memory s none }
  | _ => none

/-- The tables that calls of `Add` and `Remove` lead to. `SQ_MALLOC` gives out what is not in use,
and what is removed is a string. -/
inductive Reachable (nul : α) : SQStringTable α → Prop
  | create : Reachable nul create
  | add {t t' : SQStringTable α} {news : News α nul} {p s : ℕ} (h : Reachable nul t)
    (hp : t.memory p = none) (hadd : t.add hash news p = some (t', s)) : Reachable nul t'
  | remove {t t' : SQStringTable α} {bs : ℕ} (h : Reachable nul t) (hbs : t.memory bs ≠ none)
    (hremove : t.remove bs = some t') : Reachable nul t'

end SQStringTable

end Squirt
