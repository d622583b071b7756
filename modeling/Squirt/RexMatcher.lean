import Squirt.RexCompiler

/-!
# Matching of regular expressions

The functions that match a compiled expression. Texts are at addresses; the memory around a text
may hold anything. Beside the slots of the groups the state has notes on the run: what was read
and handled, which nodes were tried where, and what became of the groups. No function of the
source reads the notes.
-/

namespace Squirt

open Programs

/-- A text, with the address where it begins and the memory around it -/
structure Text where
  text : CString
  str : ℤ
  elsewhere : ℤ → Char

def Text.charAt (t : Text) (a : ℤ) : Char :=
  if t.str ≤ a ∧ a < t.str + t.text.chars.length then t.text.chars.getD (a - t.str).toNat NUL
  else if a = t.str + t.text.chars.length then NUL
  else t.elsewhere a

/-- The address of the terminator -/
def Text.eol (t : Text) : ℤ := t.str + t.text.chars.length

structure SQRexMatch where
  begin : ℤ
  len : ℤ
  deriving DecidableEq

/-- The slots of the groups, and the notes on a run -/
structure Matching where
  submatches : List SQRexMatch
  currsubexp : ℤ
  /-- the addresses that were read -/
  reads : List ℤ
  /-- the addresses that `matchnode` was given or returned -/
  handled : List ℤ
  /-- the nodes that were matched, and where -/
  tried : List (ℤ × ℤ)
  /-- the groups whose slots were written -/
  opened : List ℤ
  /-- the groups that take part in the match, as far as it goes -/
  path : List ℤ
  /-- the groups whose slots hold a part of the text, from the match as far as it goes -/
  live : List ℤ
  /-- the groups whose slots hold a part of the text, from an attempt that was given up -/
  abandoned : List ℤ

abbrev Matcher (α : Type) := Program Matching Empty α

def matchcclass (cclass : ℤ) (c : Char) : Bool :=
  match Char.ofNat cclass.toNat with
  | 'a' => c.isAlpha
  | 'A' => !c.isAlpha
  | 'w' => c.isAlphanum || c = '_'
  | 'W' => !c.isAlphanum && c ≠ '_'
  | 's' => isspace c
  | 'S' => !isspace c
  | 'd' => c.isDigit
  | 'D' => !c.isDigit
  | 'x' => isxdigit c
  | 'X' => !isxdigit c
  | 'c' => iscntrl c
  | 'C' => !iscntrl c
  | 'p' => ispunct c
  | 'P' => !ispunct c
  | 'l' => c.isLower
  | 'u' => c.isUpper
  | _ => false

/-- A node of a class accepts a character. -/
def SQRexNode.accepts (node : SQRexNode) (c : Char) : Bool :=
  match node.type with
  | .RANGE => node.left ≤ schar c && schar c ≤ node.right
  | .CCLASS => matchcclass node.left c
  | type => schar c = type.code

namespace Rex

section Matchnode

variable (nodes : List SQRexNode) (t : Text) (bol eol : ℤ)

/-- `*a` -/
def read (a : ℤ) : Matcher Char := do
  modify fun s => { s with reads := a :: s.reads }
  return t.charAt a

def matchclass : ℕ → ℤ → Char → Matcher Bool
  | 0, _, _ => throw .outOfFuel
  | fuel + 1, i, c =>
    let node := nodeAt nodes i
    if node.accepts c then return true
    else if node.next ≠ -1 then matchclass fuel node.next c
    else return false

/-! ### The notes on attempts -/

/-- The groups whose slots were written since a state -/
def openedSince (before s : Matching) : List ℤ :=
  s.opened.take (s.opened.length - before.opened.length)

/-- An attempt that began at a state is given up: its groups take no part in the match. -/
def abandon (before : Matching) : Matcher Unit :=
  modify fun s => { s with
    path := before.path
    live := s.live.filter (· ∉ openedSince before s)
    abandoned := s.live.filter (· ∈ openedSince before s) ++ s.abandoned }

/-- The call of `matchnode` for a node at an address -/
def attempt (i str : ℤ) (body : Matcher (Option ℤ)) : Matcher (Option ℤ) := do
  modify fun s => { s with tried := (i, str) :: s.tried, handled := str :: s.handled }
  let before ← get
  match ← body with
  | some r =>
    modify fun s => { s with handled := r :: s.handled }
    return some r
  | none =>
    abandon before
    return none

/-! ### The nodes with nodes in them -/

variable (run : ℤ → ℤ → ℤ → Matcher (Option ℤ))

/-- The counts satisfy the bounds. -/
def enough (p0 p1 nmaches : ℕ) : Bool :=
  (p0 = p1 && p0 = nmaches) || (nmaches ≥ p0 && p1 = 0xFFFF) || (nmaches ≥ p0 && nmaches ≤ p1)

/-- `(node->right >> 16) & 0x0000FFFF` -/
def lowerCount (node : SQRexNode) : ℕ := (node.right / 65536 % 65536).toNat

/-- `node->right & 0x0000FFFF` -/
def upperCount (node : SQRexNode) : ℕ := (node.right % 65536).toNat

/-- What follows `greedystop` when it is matched ahead -/
def gnext (greedystop next : ℤ) : ℤ :=
  if (nodeAt nodes greedystop).next ≠ -1 then (nodeAt nodes greedystop).next
  else if next ≠ -1 ∧ (nodeAt nodes next).next ≠ -1 then (nodeAt nodes next).next
  else -1

/-- Whether `greedystop` is matched ahead: not when it may match nothing -/
def looksAhead (greedystop : ℤ) : Bool :=
  greedystop ≠ -1 && ((nodeAt nodes greedystop).type ≠ .GREEDY ||
    lowerCount (nodeAt nodes greedystop) ≠ 0)

/-- `greedystop` matches here; this takes no part in the match. -/
def stops (greedystop s next : ℤ) : Matcher Bool := do
  if looksAhead nodes greedystop then
    let before ← get
    let stop ← run greedystop s (gnext nodes greedystop next)
    abandon before
    return stop.isSome
  else return false

/-- The loop of a repetition, with the matches so far and where they end -/
def greedyLoop (left greedystop next : ℤ) (p0 p1 : ℕ) : ℕ → ℕ → ℤ → Matcher (ℕ × ℤ)
  | 0, _, _ => throw .outOfFuel
  | rounds + 1, nmaches, good =>
    if nmaches = 0xFFFF ∨ nmaches < p1 then do
      match ← run left good greedystop with
      | none => return (nmaches, good)
      | some s =>
        if (← stops nodes run greedystop s next) && enough p0 p1 (nmaches + 1) then
          return (nmaches + 1, s)
        else if s ≥ eol then return (nmaches + 1, s)
        else greedyLoop left greedystop next p0 p1 rounds (nmaches + 1) s
    else return (nmaches, good)

def matchGreedy (node : SQRexNode) (str next : ℤ) : Matcher (Option ℤ) := do
  let greedystop := if node.next ≠ -1 then node.next else next
  let p0 := lowerCount node
  let p1 := upperCount node
  let (nmaches, good) ←
    greedyLoop nodes eol run node.left greedystop next p0 p1 (0xFFFF + 2) 0 str
  if enough p0 p1 nmaches then return some good
  else return none

/-- An alternative: the nodes of a chain, one after the other -/
def orLoop : ℕ → ℤ → ℤ → Matcher (Option ℤ)
  | 0, _, _ => throw .outOfFuel
  | fuel + 1, temp, asd => do
    match ← run temp asd (-1) with
    | none => return none
    | some asd =>
      if (nodeAt nodes temp).next ≠ -1 then orLoop fuel (nodeAt nodes temp).next asd
      else return some asd

def matchOr (node : SQRexNode) (str : ℤ) : Matcher (Option ℤ) := do
  let before ← get
  match ← orLoop nodes run (nodes.length + 1) node.left str with
  | some asd => return some asd
  | none =>
    abandon before
    orLoop nodes run (nodes.length + 1) node.right str

def exprLoop (next : ℤ) : ℕ → ℤ → ℤ → Matcher (Option ℤ)
  | 0, _, _ => throw .outOfFuel
  | fuel + 1, n, cur => do
    let subnext := if (nodeAt nodes n).next ≠ -1 then (nodeAt nodes n).next else next
    match ← run n cur subnext with
    | none => return none
    | some cur =>
      if (nodeAt nodes n).next ≠ -1 then exprLoop next fuel (nodeAt nodes n).next cur
      else return some cur

/-- `exp->_matches[capture]` is changed. -/
def setMatch (capture : ℤ) (f : SQRexMatch → SQRexMatch) : Matcher Unit :=
  modify fun s => { s with submatches := s.submatches.modify capture.toNat f }

/-- The slot of a group is written. -/
def openGroup (capture cur : ℤ) : Matcher Unit := do
  setMatch capture fun m => { m with begin := cur }
  modify fun s => { s with
    currsubexp := s.currsubexp + 1
    opened := capture :: s.opened
    live := s.live.filter (· ≠ capture)
    abandoned := s.abandoned.filter (· ≠ capture) }

def matchExpr (node : SQRexNode) (str next : ℤ) : Matcher (Option ℤ) := do
  let captures := decide (node.type ≠ .NOCAPEXPR ∧ node.right = (← get).currsubexp)
  if captures then openGroup node.right str
  let tempcap := (← get).currsubexp
  match ← exprLoop nodes run next (nodes.length + 1) node.left str with
  | none =>
    if captures then setMatch node.right fun _ => ⟨0, 0⟩
    return none
  | some cur =>
    modify fun s => { s with
      currsubexp := tempcap
      path := if node.type ≠ .NOCAPEXPR then node.right :: s.path else s.path }
    if captures then
      setMatch node.right fun m => { m with len := cur - m.begin }
      if cur > str then modify fun s => { s with live := node.right :: s.live }
    return some cur

/-! ### The nodes without nodes in them -/

/-- Whether the characters at an address and behind it are spaces or not differs. -/
def spaceChanges (str : ℤ) : Matcher Bool := do
  return isspace (← read t str) != isspace (← read t (str + 1))

/-- The test for the border of a word -/
def wordBorder (str : ℤ) : Matcher Bool := do
  let first ← if str = bol then (fun c => !isspace c) <$> read t str else pure false
  if first then return true
  let last ← if str = eol then (fun c => !isspace c) <$> read t (str - 1) else pure false
  if last then return true
  spaceChanges t str

/-- A node that matches one character, or none -/
def matchSimple (node : SQRexNode) (str : ℤ) : Matcher (Option ℤ) := do
  match node.type with
  | .WB =>
    let border ← wordBorder t bol eol str
    return if border = decide (node.left = schar 'b') then some str else none
  | .BOL => return if str = bol then some str else none
  | .EOL => return if str = eol then some str else none
  | .DOT => return some (str + 1)
  | .NCLASS =>
    let found ← matchclass nodes (nodes.length + 1) node.left (← read t str)
    return if found then none else some (str + 1)
  | .CLASS =>
    let found ← matchclass nodes (nodes.length + 1) node.left (← read t str)
    return if found then some (str + 1) else none
  | .CCLASS => return if matchcclass node.left (← read t str) then some (str + 1) else none
  | type => return if schar (← read t str) ≠ type.code then none else some (str + 1)

/-- `sqstd_rex_matchnode`; the nodes are given by their indices, -1 for `NULL`. -/
def matchnode : ℕ → ℤ → ℤ → ℤ → Matcher (Option ℤ)
  | 0, _, _, _ => throw .outOfFuel
  | fuel + 1, i, str, next =>
    let node := nodeAt nodes i
    attempt i str <|
      match node.type with
      | .GREEDY => matchGreedy nodes eol (matchnode fuel) node str next
      | .OR => matchOr nodes (matchnode fuel) node str
      | .EXPR | .NOCAPEXPR => matchExpr nodes (matchnode fuel) node str next
      | _ => matchSimple nodes t bol eol node str

end Matchnode

/-! ### The interface -/

section Interface

variable (nodes : List SQRexNode) (t : Text)

def strlenLoop : ℕ → ℤ → Matcher ℤ
  | 0, _ => throw .outOfFuel
  | fuel + 1, a => do
    if (← read t a) = NUL then return a
    else strlenLoop fuel (a + 1)

/-- `text + scstrlen(text)` -/
def textEnd (text : ℤ) : Matcher ℤ := strlenLoop t (t.text.chars.length + 1) text

/-- `sqstd_rex_match` -/
def rexMatch (text : ℤ) : Matcher Bool := do
  let eol ← textEnd t text
  modify fun s => { s with currsubexp := 0 }
  let res ← matchnode nodes t text eol (nodes.length + 1) 0 text (-1)
  return res = some eol

/-- The nodes at the top, from one on; the node that fails is in the result. -/
def topLoop (bol eol : ℤ) : ℕ → ℤ → ℤ → Matcher (Option ℤ × ℤ)
  | 0, _, _ => throw .outOfFuel
  | fuel + 1, node, cur =>
    if node ≠ -1 then do
      modify fun s => { s with currsubexp := 0 }
      match ← matchnode nodes t bol eol (nodes.length + 1) node cur (-1) with
      | none => return (none, node)
      | some cur => topLoop bol eol fuel (nodeAt nodes node).next cur
    else return (some cur, node)

/-- The loop over the places where a match may begin -/
def searchLoop (bol eol : ℤ) : ℕ → ℤ → ℤ → Matcher (Option (ℤ × ℤ))
  | 0, _, _ => throw .outOfFuel
  | fuel + 1, node, text_begin => do
    match ← topLoop nodes t bol eol (nodes.length + 1) node text_begin with
    | (some cur, _) => return some (text_begin, cur)
    | (none, node) =>
      if text_begin + 1 ≠ eol then searchLoop bol eol fuel node (text_begin + 1)
      else return none

def searchrange (text_begin text_end : ℤ) : Matcher (Option (ℤ × ℤ)) :=
  if text_begin ≥ text_end then return none
  else searchLoop nodes t text_begin text_end (text_end - text_begin).toNat 0 text_begin

/-- `sqstd_rex_search` -/
def rexSearch (text : ℤ) : Matcher (Option (ℤ × ℤ)) := do
  searchrange nodes t text (← textEnd t text)

end Interface

end Rex

end Squirt
