import Mathlib.Data.Int.Basic
import Squirt.Lexer

/-!
# Compilation of regular expressions

The functions of `sqstd_rex_compile`. The characters are those of a `char`, and strings end at
their first NUL. A read past the terminator of the pattern, and an access
outside the array of nodes, end the compilation with `outside`: what happens then is undefined.
-/

namespace Squirt

open Programs

/-- A string without NUL, which ends it -/
structure CString where
  chars : List Char
  noNul : Char.ofNat 0 ∉ chars

abbrev NUL : Char := Char.ofNat 0

/-- The value of a `char` -/
def schar (c : Char) : ℤ :=
  if c.toNat % 256 < 128 then (c.toNat % 256 : ℕ) else (c.toNat % 256 : ℕ) - 256

/-! ### The characters of the C locale -/

def isspace (c : Char) : Bool := c = ' ' || (9 ≤ c.toNat && c.toNat ≤ 13)

def isprint (c : Char) : Bool := 32 ≤ c.toNat && c.toNat < 127

def ispunct (c : Char) : Bool := 32 < c.toNat && c.toNat < 127 && !c.isAlphanum

/-- The types of nodes; a character is a type of its own. -/
inductive SQRexNodeType where
  | GREEDY | OR | EXPR | NOCAPEXPR | DOT | CLASS | CCLASS | NCLASS | RANGE | EOL | BOL | WB
  | char (c : Char)
  deriving DecidableEq

/-- The number of a type: the value of a character, or more than `MAX_CHAR` -/
def SQRexNodeType.code : SQRexNodeType → ℤ
  | GREEDY => MAX_CHAR + 1
  | OR => MAX_CHAR + 2
  | EXPR => MAX_CHAR + 3
  | NOCAPEXPR => MAX_CHAR + 4
  | DOT => MAX_CHAR + 5
  | CLASS => MAX_CHAR + 6
  | CCLASS => MAX_CHAR + 7
  | NCLASS => MAX_CHAR + 8
  | RANGE => MAX_CHAR + 9
  | EOL => MAX_CHAR + 11
  | BOL => MAX_CHAR + 12
  | WB => MAX_CHAR + 13
  | char c => schar c

structure SQRexNode where
  type : SQRexNodeType
  left : ℤ
  right : ℤ
  next : ℤ
  deriving DecidableEq

/-- A regular expression that is compiled -/
structure SQRex where
  pattern : List Char
  /-- `_p`, as an index into the pattern -/
  p : ℕ
  nodes : List SQRexNode
  nallocated : ℕ
  nsubexpr : ℕ
  /-- where the escapes of the pattern began -/
  escapes : List ℕ

/-- Why a compilation ends without a result -/
inductive RexError where
  | error (message : String)
  | outside
  deriving DecidableEq

abbrev Compiler (α : Type) := Program SQRex RexError α

def nodeAt (nodes : List SQRexNode) (i : ℤ) : SQRexNode :=
  nodes.getD i.toNat ⟨.EXPR, -1, -1, -1⟩

namespace SQRex

def rexError {α : Type} (error : String) : Compiler α := Program.raise (.error error)

def errorIf (wrong : Prop) [Decidable wrong] (error : String) : Compiler Unit :=
  if wrong then rexError error else pure ()

/-- `*exp->_p` -/
def peek : Compiler Char := do
  let s ← get
  if s.p < s.pattern.length then return s.pattern.getD s.p NUL
  else if s.p = s.pattern.length then return NUL
  else Program.raise .outside

/-- `exp->_p++` -/
def advance : Compiler Unit := modify fun s => { s with p := s.p + 1 }

/-- `exp->_nodes[n]` is changed. -/
def setNode (n : ℤ) (f : SQRexNode → SQRexNode) : Compiler Unit := do
  let s ← get
  if 0 ≤ n ∧ n < s.nodes.length then set { s with nodes := s.nodes.modify n.toNat f }
  else Program.raise .outside

/-- `exp->_nodes[n].type`, as a number -/
def typeOf (n : ℤ) : Compiler SQRexNodeType := do
  let s ← get
  if 0 ≤ n ∧ n < s.nodes.length then return (nodeAt s.nodes n).type
  else Program.raise .outside

def newnode (type : SQRexNodeType) : Compiler ℤ := do
  let s ← get
  let n : SQRexNode := ⟨type, -1, if type = .EXPR then s.nsubexpr else -1, -1⟩
  let nsubexpr := if type = .EXPR then s.nsubexpr + 1 else s.nsubexpr
  let nallocated :=
    if s.nallocated < s.nodes.length + 1 then s.nallocated * 2 else s.nallocated
  set { s with nsubexpr := nsubexpr, nallocated := nallocated }
  if nallocated ≤ s.nodes.length then Program.raise .outside
  else
    modify fun s => { s with nodes := s.nodes ++ [n] }
    return s.nodes.length

def expect (n : Char) : Compiler Unit := do
  errorIf ((← peek) ≠ n) "expected paren"
  advance

/-- An escape begins here; the first step over it -/
def beginEscape : Compiler Unit := do
  modify fun s => { s with escapes := s.p :: s.escapes }
  advance

/-- The control characters that have an escape -/
def controls : List (Char × Char) :=
  [('v', '\x0b'), ('n', '\n'), ('t', '\t'), ('r', '\r'), ('f', '\x0c')]

def escapechar : Compiler Char := do
  let c ← peek
  if c = '\\' then
    beginEscape
    let c ← peek
    advance
    return (controls.lookup c).getD c
  else
    errorIf (¬isprint c) "letter expected"
    advance
    return c

def charclass (classid : Char) : Compiler ℤ := do
  let n ← newnode .CCLASS
  setNode n fun node => { node with left := schar classid }
  return n

/-- The letters of character classes -/
def classids : List Char :=
  ['a', 'A', 'w', 'W', 's', 'S', 'd', 'D', 'x', 'X', 'c', 'C', 'p', 'P', 'l', 'u']

def charnode (isclass : Bool) : Compiler ℤ := do
  let c ← peek
  if c = '\\' then
    beginEscape
    let t ← peek
    if (controls.lookup t).isSome then
      advance
      newnode (.char ((controls.lookup t).getD t))
    else if t ∈ classids then
      advance
      charclass t
    else if (t = 'b' ∨ t = 'B') ∧ ¬isclass then
      let node ← newnode .WB
      setNode node fun n => { n with left := schar t }
      advance
      return node
    else
      advance
      newnode (.char t)
  else
    errorIf (¬isprint c) "letter expected"
    advance
    newnode (.char c)

/-- The loop of a class, with its `first` and `chain`; `_eol` is not set then. -/
def classLoop : ℕ → ℤ → ℤ → Compiler (ℤ × ℤ)
  | 0, _, _ => throw .outOfFuel
  | fuel + 1, first, chain => do
    let c ← peek
    if c = ']' then return (first, chain)
    else if c = '-' ∧ first ≠ -1 then
      advance
      errorIf (c = ']') "unfinished range"
      let r ← newnode .RANGE
      let type ← typeOf first
      errorIf (type.code > schar (← peek)) "invalid range"
      errorIf (type = .CCLASS) "cannot use character classes in ranges"
      setNode r fun n => { n with left := type.code }
      let t ← escapechar
      setNode r fun n => { n with right := schar t }
      setNode chain fun n => { n with next := r }
      classLoop fuel (-1) r
    else if first ≠ -1 then
      setNode chain fun n => { n with next := first }
      let first' ← charnode true
      classLoop fuel first' first
    else
      let first' ← charnode true
      classLoop fuel first' chain

/-- `sqstd_rex_class` -/
def rexClass : Compiler ℤ := do
  let c ← peek
  let ret ← if c = '^' then do
      let ret ← newnode .NCLASS
      advance
      pure ret
    else newnode .CLASS
  errorIf ((← peek) = ']') "empty class"
  let s ← get
  let (first, chain) ← classLoop (s.pattern.length + 1) (-1) ret
  if first ≠ -1 then setNode chain fun n => { n with next := first }
  -- the chain of the class becomes its left side
  setNode ret fun n => { n with left := n.next, next := -1 }
  return ret

/-- The digits of a number after its first one -/
def numberLoop : ℕ → ℕ → ℕ → Compiler ℕ
  | 0, _, _ => throw .outOfFuel
  | fuel + 1, ret, positions => do
    let c ← peek
    if c.isDigit then
      advance
      errorIf (positions = 1000000000) "overflow in numeric constant"
      numberLoop fuel (ret * 10 + digitValue c) (positions * 10)
    else return ret

def parsenumber : Compiler ℕ := do
  let c ← peek
  advance
  let s ← get
  numberLoop (s.pattern.length + 1) (digitValue c) 10

/-- `(unsigned short)n` -/
def ushort (n : ℕ) : ℕ := n % 65536

/-- `(p0 << 16) | p1`, as an `int` -/
def packed (p0 p1 : ℕ) : ℤ := ((p0 * 65536 + p1 : ℕ) : ℤ).bmod (2 ^ 32)

/-- The counts that follow an element -/
def counts : Compiler (Option (ℕ × ℕ)) := do
  match ← peek with
  | '*' =>
    advance
    return some (0, 0xFFFF)
  | '+' =>
    advance
    return some (1, 0xFFFF)
  | '?' =>
    advance
    return some (0, 1)
  | '{' =>
    advance
    errorIf (¬(← peek).isDigit) "number expected"
    let p0 ← parsenumber
    match ← peek with
    | '}' =>
      advance
      return some (ushort p0, ushort p0)
    | ',' =>
      advance
      if (← peek).isDigit then
        let p1 ← parsenumber
        expect '}'
        return some (ushort p0, ushort p1)
      else
        expect '}'
        return some (ushort p0, 0xFFFF)
    | _ => rexError ", or \x7d expected"
  | _ => return none

/-- The node of an element with its counts -/
def greedy (ret : ℤ) : Compiler ℤ := do
  match ← counts with
  | some (p0, p1) =>
    let nnode ← newnode .GREEDY
    setNode nnode fun n => { n with left := ret, right := packed p0 p1 }
    return nnode
  | none => return ret

/-- An element without counts; `list` parses what stands in parentheses. -/
def atom (list : Compiler ℤ) : Compiler ℤ := do
  match ← peek with
  | '(' =>
    advance
    let expr ← if (← peek) = '?' then do
        advance
        expect ':'
        newnode .NOCAPEXPR
      else newnode .EXPR
    let newn ← list
    setNode expr fun n => { n with left := newn }
    expect ')'
    return expr
  | '[' =>
    advance
    let ret ← rexClass
    expect ']'
    return ret
  | '$' =>
    advance
    newnode .EOL
  | '.' =>
    advance
    newnode .DOT
  | _ => charnode false

mutual

def element : ℕ → Compiler ℤ
  | 0 => throw .outOfFuel
  | fuel + 1 => do
    let ret ← greedy (← atom (list fuel))
    let c ← peek
    if c ≠ '|' ∧ c ≠ ')' ∧ c ≠ '*' ∧ c ≠ '+' ∧ c ≠ NUL then
      let nnode ← element fuel
      setNode ret fun n => { n with next := nnode }
    return ret

def list : ℕ → Compiler ℤ
  | 0 => throw .outOfFuel
  | fuel + 1 => do
    let ret ← if (← peek) = '^' then do
        advance
        newnode .BOL
      else pure (-1)
    let e ← element fuel
    let ret ← if ret ≠ -1 then do
        setNode ret fun n => { n with next := e }
        pure ret
      else pure e
    if (← peek) = '|' then
      advance
      let temp ← newnode .OR
      setNode temp fun n => { n with left := ret }
      let tright ← list fuel
      setNode temp fun n => { n with right := tright }
      return temp
    else return ret

end

/-- `sqstd_rex_compile`, after its allocations; the result is `_first`. -/
def compileBody : Compiler ℤ := do
  let first ← newnode .EXPR
  let s ← get
  let res ← list (2 * s.pattern.length + 2)
  setNode first fun n => { n with left := res }
  errorIf ((← peek) ≠ NUL) "unexpected character"
  return first

end SQRex

/-- `sqstd_rex_compile` -/
def rexCompile (pattern : CString) : EStateM.Result (Stop RexError) SQRex ℤ :=
  SQRex.compileBody
    { pattern := pattern.chars, p := 0, nodes := [], nallocated := pattern.chars.length,
      nsubexpr := 0, escapes := [] }

end Squirt
