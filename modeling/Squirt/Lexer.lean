import Mathlib.Algebra.Field.Rat
import Mathlib.Algebra.Ring.Nat
import Mathlib.Data.Int.Basic
import Squirt.Programs

/-!
# The lexer

The functions of `SQLexer`. The characters are those of an `unsigned char`, 0 to 255; `_readf`
returns the numbers of a list and then 0 for ever. `Error` does not return, so it ends the
program here, and a loop makes as many rounds at most as there are characters to read.
-/

namespace Squirt

open Programs

abbrev SQUIRREL_EOB : Char := Char.ofNat 0

def MAX_CHAR : ℤ := 255

/-! ### The tokens that have no character -/

abbrev TK_IDENTIFIER : ℤ := 258
abbrev TK_STRING_LITERAL : ℤ := 259
abbrev TK_INTEGER : ℤ := 260
abbrev TK_FLOAT : ℤ := 261
abbrev TK_EQ : ℤ := 264
abbrev TK_NE : ℤ := 265
abbrev TK_LE : ℤ := 266
abbrev TK_GE : ℤ := 267
abbrev TK_AND : ℤ := 270
abbrev TK_OR : ℤ := 271
abbrev TK_NEWSLOT : ℤ := 281
abbrev TK_PLUSEQ : ℤ := 289
abbrev TK_MINUSEQ : ℤ := 290
abbrev TK_SHIFTL : ℤ := 296
abbrev TK_SHIFTR : ℤ := 297
abbrev TK_DOUBLE_COLON : ℤ := 299
abbrev TK_PLUSPLUS : ℤ := 303
abbrev TK_MINUSMINUS : ℤ := 304
abbrev TK_3WAYSCMP : ℤ := 305
abbrev TK_USHIFTR : ℤ := 306
abbrev TK_VARPARAMS : ℤ := 312
abbrev TK_MULEQ : ℤ := 317
abbrev TK_DIVEQ : ℤ := 318
abbrev TK_MODEQ : ℤ := 319
abbrev TK_ATTR_OPEN : ℤ := 320
abbrev TK_ATTR_CLOSE : ℤ := 321

/-- `_keywords`, with the values of their tokens -/
def keywords : List (String × ℤ) :=
  [("while", 274), ("do", 277), ("if", 272), ("else", 273), ("break", 275), ("continue", 291),
    ("return", 286), ("define", 286), ("null", 278), ("function", 285), ("local", 283),
    ("for", 276), ("foreach", 279), ("in", 280), ("typeof", 287), ("base", 262), ("delete", 263),
    ("try", 293), ("catch", 294), ("throw", 295), ("clone", 284), ("yield", 292),
    ("resume", 298), ("switch", 268), ("case", 300), ("default", 301), ("this", 302),
    ("class", 307), ("extends", 308), ("constructor", 310), ("instanceof", 311), ("true", 315),
    ("false", 316), ("static", 322), ("enum", 323), ("const", 324), ("var", 325),
    ("struct", 326), ("native", 327), ("using", 330), ("namespace", 329), ("as", 332),
    ("is", 333), ("dynamic", 334), ("void", 335), ("char", 337), ("byte", 338), ("bool", 336),
    ("int16", 339), ("uint16", 340), ("int32", 341), ("uint32", 342), ("int", 341),
    ("uint", 342), ("int64", 343), ("uint64", 344), ("float", 345), ("double", 346),
    ("string", 347), ("nativeptr", 351)]

/-! ### The characters of the C locale -/

def isxdigit (c : Char) : Bool := c.isDigit || ('a' ≤ c && c ≤ 'f') || ('A' ≤ c && c ≤ 'F')

def iscntrl (c : Char) : Bool := c.toNat < 32 || c.toNat = 127

def scisodigit (c : Char) : Bool := '0' ≤ c && c ≤ '7'

def isexponent (c : Char) : Bool := c = 'e' || c = 'E'

/-- The number that a digit of some base stands for -/
def digitValue (c : Char) : ℕ :=
  if c.isDigit then c.toNat - '0'.toNat else c.toUpper.toNat - 'A'.toNat + 10

/-- `(LexChar)t` -/
def lexChar (t : ℤ) : Char := Char.ofNat (t % 256).toNat

/-- The value of a `SQChar`, a signed `char` -/
def charValue (c : Char) : ℤ := if c.toNat < 128 then c.toNat else c.toNat - 256

/-- The lexer, with integers of `w` bits and floats of type `F` -/
structure SQLexer (w : ℕ) (F : Type) where
  /-- what `_readf` has not returned yet -/
  source : List ℤ
  currdata : Char
  reached_eof : Bool
  curtoken : ℤ
  prevtoken : ℤ
  currentline : ℕ
  lasttokenline : ℕ
  currentcolumn : ℕ
  lasttokencolumn : ℕ
  nvalue : BitVec w
  fvalue : F
  longstr : List Char

abbrev Lexer (w : ℕ) (F α : Type) := Program (SQLexer w F) String α

namespace SQLexer

variable {w : ℕ} {F α : Type}

def error (err : String) : Lexer w F α := Program.raise err

def errorIf (wrong : Prop) [Decidable wrong] (err : String) : Lexer w F Unit :=
  if wrong then error err else pure ()

def CUR_CHAR : Lexer w F Char := return (← get).currdata

def next : Lexer w F Unit := do
  let s ← get
  let t := s.source.headD 0
  set { s with source := s.source.tail }
  errorIf (t > MAX_CHAR) "Invalid character"
  if t ≠ 0 then modify fun s => { s with currdata := lexChar t }
  else modify fun s => { s with currdata := SQUIRREL_EOB, reached_eof := true }

def NEXT : Lexer w F Unit := do
  next
  modify fun s => { s with currentcolumn := s.currentcolumn + 1 }

/-- `_currentline++` -/
def nextLine : Lexer w F Unit := modify fun s => { s with currentline := s.currentline + 1 }

def initTempString : Lexer w F Unit := modify fun s => { s with longstr := [] }

def appendChar (c : Char) : Lexer w F Unit := modify fun s => { s with longstr := s.longstr ++ [c] }

def terminateBuffer : Lexer w F Unit := appendChar (Char.ofNat 0)

/-- `_prevtoken = _curtoken; _curtoken = t` -/
def setToken (t : ℤ) : Lexer w F Unit :=
  modify fun s => { s with prevtoken := s.curtoken, curtoken := t }

/-- `RETURN_TOKEN(t)`, in a loop that goes on while there is none -/
def returnToken (t : ℤ) : Lexer w F (Option ℤ) := do
  setToken t
  return some t

/-- A loop; each of its rounds reads a character. -/
def untilDone (body : Lexer w F (Option α)) : Lexer w F α := fun s =>
  Program.repeatUntil body (s.source.length + 2) s

/-- `Init`, of a lexer that is not initialized -/
def init (source : List ℤ) : Lexer w F Unit := do
  modify fun s => { s with
    source := source
    lasttokenline := 1
    currentline := 1
    lasttokencolumn := 0
    currentcolumn := 0
    prevtoken := -1
    reached_eof := false }
  next

/-! ### Comments -/

def blockCommentRound : Lexer w F (Option Unit) := do
  match ← CUR_CHAR with
  | '*' =>
    NEXT
    if (← CUR_CHAR) = '/' then
      NEXT
      return some ()
    else return none
  | '\n' =>
    nextLine
    NEXT
    return none
  | '\x00' => error "missing \"*/\" in comment"
  | _ =>
    NEXT
    return none

def lexBlockComment : Lexer w F Unit := untilDone blockCommentRound

def lineCommentRound : Lexer w F (Option Unit) := do
  NEXT
  let c ← CUR_CHAR
  return if c ≠ '\n' ∧ c ≠ SQUIRREL_EOB then none else some ()

def lexLineComment : Lexer w F Unit := untilDone lineCommentRound

/-! ### Strings and identifiers -/

/-- The digits of `\x`, at most as many as there are places in `temp` -/
def readHexDigits : ℕ → Lexer w F (List Char)
  | 0 => return []
  | n + 1 => do
    let c ← CUR_CHAR
    if isxdigit c then
      NEXT
      return c :: (← readHexDigits n)
    else return []

/-- `(SQChar)scstrtoul(temp, &sTemp, 16)` -/
def hexChar (temp : List Char) : Char :=
  lexChar (temp.foldl (fun n c => n * 16 + digitValue c) 0 : ℕ)

/-- The character of an escape -/
def escapes : List (Char × Char) :=
  [('t', '\t'), ('a', '\x07'), ('b', '\x08'), ('n', '\n'), ('r', '\r'), ('v', '\x0b'),
    ('f', '\x0c'), ('0', '\x00'), ('\\', '\\'), ('"', '"'), ('\'', '\'')]

/-- The character after a backslash -/
def readEscape : Lexer w F Unit := do
  let c ← CUR_CHAR
  if c = 'x' then
    NEXT
    errorIf (¬isxdigit (← CUR_CHAR)) "hexadecimal number expected"
    appendChar (hexChar (← readHexDigits 4))
  else
    match escapes.lookup c with
    | some c' =>
      appendChar c'
      NEXT
    | none => error "unrecognised escaper char"

/-- A character of a string that does not end there -/
def readStringChar (verbatim : Bool) : Lexer w F Unit := do
  match ← CUR_CHAR with
  | '\x00' => error "unfinished string"
  | '\n' =>
    errorIf (¬verbatim) "newline in a constant"
    appendChar '\n'
    NEXT
    nextLine
  | '\\' =>
    if verbatim then
      appendChar '\\'
      NEXT
    else
      NEXT
      readEscape
  | c =>
    appendChar c
    NEXT

def stringRound (ndelim : Char) (verbatim : Bool) : Lexer w F (Option Unit) := do
  if (← CUR_CHAR) = ndelim then return some ()
  else
    readStringChar verbatim
    return none

/-- What stands between two delimiters, and whether the string ends there -/
def stringPart (ndelim : Char) (verbatim : Bool) : Lexer w F (Option Unit) := do
  untilDone (stringRound ndelim verbatim)
  NEXT
  if verbatim ∧ (← CUR_CHAR) = '"' then
    appendChar '"'
    NEXT
    return none
  else return some ()

def readString (ndelim : Char) (verbatim : Bool) : Lexer w F ℤ := do
  initTempString
  NEXT
  if (← CUR_CHAR) = SQUIRREL_EOB then return -1
  else
    untilDone (stringPart ndelim verbatim)
    terminateBuffer
    let len := (← get).longstr.length - 1
    if ndelim = '\'' then
      errorIf (len = 0) "empty constant"
      errorIf (len > 1) "constant too long"
      modify fun s =>
        { s with nvalue := .ofInt w (charValue (s.longstr.headD SQUIRREL_EOB)) }
      return TK_INTEGER
    else return TK_STRING_LITERAL

def getIDType (s : List Char) : ℤ := (keywords.lookup (String.ofList s)).getD TK_IDENTIFIER

def idRound : Lexer w F (Option Unit) := do
  appendChar (← CUR_CHAR)
  NEXT
  let c ← CUR_CHAR
  return if c.isAlphanum ∨ c = '_' then none else some ()

def readID : Lexer w F ℤ := do
  initTempString
  untilDone idRound
  terminateBuffer
  return getIDType (← get).longstr.dropLast

/-! ### Numbers -/

/-- `LexHexadecimal`, of digits -/
def lexHexadecimal (s : List Char) : BitVec w :=
  s.foldl (fun res c => res * 16 + .ofNat w (digitValue c)) 0

def lexInteger (s : List Char) : BitVec w :=
  s.foldl (fun res c => res * 10 + .ofNat w (digitValue c)) 0

/-- `LexOctal`, of digits -/
def lexOctal (s : List Char) : BitVec w :=
  s.foldl (fun res c => res * 8 + .ofNat w (digitValue c)) 0

end SQLexer

/-- The number that decimal digits stand for -/
def decimalValue (s : List Char) : ℕ := s.foldl (fun n c => n * 10 + digitValue c) 0

/-- The exponent at the beginning of a text, 0 when there is none -/
def strtodExponent : List Char → ℤ
  | e :: s =>
    if isexponent e then
      match s with
      | '-' :: s => -decimalValue (s.takeWhile Char.isDigit)
      | '+' :: s => decimalValue (s.takeWhile Char.isDigit)
      | s => decimalValue (s.takeWhile Char.isDigit)
    else 0
  | [] => 0

/-- The number that `strtod` converts, of a text that begins with a digit: the longest beginning
that is a decimal number. -/
def scstrtod (s : List Char) : ℚ :=
  let int := s.takeWhile Char.isDigit
  let rest := s.dropWhile Char.isDigit
  let frac := if rest.head? = some '.' then rest.tail.takeWhile Char.isDigit else []
  let rest := if rest.head? = some '.' then rest.tail.dropWhile Char.isDigit else rest
  decimalValue (int ++ frac) * 10 ^ (strtodExponent rest - frac.length)

namespace SQLexer

variable {w : ℕ} {F α : Type}

inductive NumberType where
  | TINT | TFLOAT | THEX | TSCIENTIFIC | TOCTAL
  deriving DecidableEq

/-- A loop over the characters with a property -/
def digitRound (p : Char → Bool) : Lexer w F (Option Unit) := do
  let c ← CUR_CHAR
  if p c then
    appendChar c
    NEXT
    return none
  else return some ()

def readSign : Lexer w F Unit := do
  let c ← CUR_CHAR
  if c = '+' ∨ c = '-' then
    appendChar c
    NEXT
  else pure ()

/-- The letter of an exponent and its sign -/
def readExponent (type : NumberType) : Lexer w F NumberType := do
  errorIf (type ≠ .TFLOAT) "invalid numeric format"
  appendChar (← CUR_CHAR)
  NEXT
  readSign
  errorIf (¬(← CUR_CHAR).isDigit) "exponent expected"
  return .TSCIENTIFIC

/-- The loop of `ReadNumber` over digits, points and exponents, with its `type` -/
def readDecimal : ℕ → NumberType → Lexer w F NumberType
  | 0, _ => throw .outOfFuel
  | fuel + 1, type => do
    let c ← CUR_CHAR
    if c = '.' ∨ c.isDigit ∨ isexponent c then
      let type := if c = '.' ∨ isexponent c then .TFLOAT else type
      let type ← if isexponent c then readExponent type else pure type
      appendChar (← CUR_CHAR)
      NEXT
      readDecimal fuel type
    else return type

/-- The text of a number, and the form it has -/
def scanNumber (size : ℕ) : Lexer w F NumberType := do
  let firstchar ← CUR_CHAR
  initTempString
  NEXT
  let c ← CUR_CHAR
  if firstchar = '0' ∧ (c.toUpper = 'X' ∨ scisodigit c) then
    if scisodigit c then
      untilDone (digitRound scisodigit)
      errorIf (← CUR_CHAR).isDigit "invalid octal number"
      return .TOCTAL
    else
      NEXT
      untilDone (digitRound isxdigit)
      errorIf ((← get).longstr.length > size * 2) "too many digits for an Hex number"
      return .THEX
  else
    appendChar firstchar
    let s ← get
    readDecimal (s.source.length + 2) .TINT

/-- `ReadNumber`, for integers of `size` bytes -/
def readNumber (size : ℕ) (round : ℚ → F) : Lexer w F ℤ := do
  let type ← scanNumber size
  terminateBuffer
  let text := (← get).longstr.dropLast
  match type with
  | .TSCIENTIFIC | .TFLOAT =>
    modify fun s => { s with fvalue := round (scstrtod text) }
    return TK_FLOAT
  | .TINT =>
    modify fun s => { s with nvalue := lexInteger text }
    return TK_INTEGER
  | .THEX =>
    modify fun s => { s with nvalue := lexHexadecimal text }
    return TK_INTEGER
  | .TOCTAL =>
    modify fun s => { s with nvalue := lexOctal text }
    return TK_INTEGER

/-! ### Tokens -/

variable (size : ℕ) (round : ℚ → F)

/-- The rounds of the loop of `Lex`: white space and comments have no token. -/
def lexRound : Lexer w F (Option ℤ) := do
  match ← CUR_CHAR with
  | '\x00' => return some 0
  | '\t' | '\r' | ' ' =>
    NEXT
    return none
  | '\n' =>
    nextLine
    setToken '\n'.toNat
    NEXT
    modify fun s => { s with currentcolumn := 1 }
    return none
  | '#' =>
    lexLineComment
    return none
  | '/' =>
    NEXT
    match ← CUR_CHAR with
    | '*' =>
      NEXT
      lexBlockComment
      return none
    | '/' =>
      lexLineComment
      return none
    | '=' =>
      NEXT
      returnToken TK_DIVEQ
    | '>' =>
      NEXT
      returnToken TK_ATTR_CLOSE
    | _ => returnToken '/'.toNat
  | '=' =>
    NEXT
    if (← CUR_CHAR) ≠ '=' then returnToken '='.toNat
    else
      NEXT
      returnToken TK_EQ
  | '<' =>
    NEXT
    match ← CUR_CHAR with
    | '=' =>
      NEXT
      if (← CUR_CHAR) = '>' then
        NEXT
        returnToken TK_3WAYSCMP
      else returnToken TK_LE
    | '-' =>
      NEXT
      returnToken TK_NEWSLOT
    | '<' =>
      NEXT
      returnToken TK_SHIFTL
    | '/' =>
      NEXT
      returnToken TK_ATTR_OPEN
    | '|' =>
      NEXT
      returnToken TK_ATTR_OPEN
    | _ => returnToken '<'.toNat
  | '>' =>
    NEXT
    match ← CUR_CHAR with
    | '=' =>
      NEXT
      returnToken TK_GE
    | '>' =>
      NEXT
      if (← CUR_CHAR) = '>' then
        NEXT
        returnToken TK_USHIFTR
      else returnToken TK_SHIFTR
    | _ => returnToken '>'.toNat
  | '!' =>
    NEXT
    if (← CUR_CHAR) ≠ '=' then returnToken '!'.toNat
    else
      NEXT
      returnToken TK_NE
  | '@' =>
    NEXT
    if (← CUR_CHAR) ≠ '"' then returnToken '@'.toNat
    else
      let stype ← readString '"' true
      if stype ≠ -1 then returnToken stype
      else error "error parsing the string"
  | '"' | '\'' =>
    let stype ← readString (← CUR_CHAR) false
    if stype ≠ -1 then returnToken stype
    else error "error parsing the string"
  | '{' | '}' | '(' | ')' | '[' | ']' | ';' | ',' | '?' | '^' | '~' =>
    let ret ← CUR_CHAR
    NEXT
    returnToken ret.toNat
  | '.' =>
    NEXT
    if (← CUR_CHAR) ≠ '.' then returnToken '.'.toNat
    else
      NEXT
      errorIf ((← CUR_CHAR) ≠ '.') "invalid token '..'"
      NEXT
      returnToken TK_VARPARAMS
  | '&' =>
    NEXT
    if (← CUR_CHAR) ≠ '&' then returnToken '&'.toNat
    else
      NEXT
      returnToken TK_AND
  | '|' =>
    NEXT
    match ← CUR_CHAR with
    | '>' =>
      NEXT
      returnToken TK_ATTR_CLOSE
    | '|' =>
      NEXT
      returnToken TK_OR
    | _ => returnToken '|'.toNat
  | ':' =>
    NEXT
    if (← CUR_CHAR) ≠ ':' then returnToken ':'.toNat
    else
      NEXT
      returnToken TK_DOUBLE_COLON
  | '*' =>
    NEXT
    if (← CUR_CHAR) = '=' then
      NEXT
      returnToken TK_MULEQ
    else returnToken '*'.toNat
  | '%' =>
    NEXT
    if (← CUR_CHAR) = '=' then
      NEXT
      returnToken TK_MODEQ
    else returnToken '%'.toNat
  | '-' =>
    NEXT
    match ← CUR_CHAR with
    | '=' =>
      NEXT
      returnToken TK_MINUSEQ
    | '-' =>
      NEXT
      returnToken TK_MINUSMINUS
    | _ => returnToken '-'.toNat
  | '+' =>
    NEXT
    match ← CUR_CHAR with
    | '=' =>
      NEXT
      returnToken TK_PLUSEQ
    | '+' =>
      NEXT
      returnToken TK_PLUSPLUS
    | _ => returnToken '+'.toNat
  | c =>
    if c.isDigit then returnToken (← readNumber size round)
    else if c.isAlpha ∨ c = '_' then returnToken (← readID)
    else
      errorIf (iscntrl c) "unexpected character(control)"
      NEXT
      returnToken c.toNat

def lex : Lexer w F ℤ := do
  modify fun s => { s with
    lasttokenline := s.currentline
    lasttokencolumn := s.currentcolumn }
  untilDone (lexRound size round)

/-- A lexer before `Init` -/
def blank : SQLexer 64 ℚ where
  source := []
  currdata := SQUIRREL_EOB
  reached_eof := false
  curtoken := 0
  prevtoken := 0
  currentline := 0
  lasttokenline := 0
  currentcolumn := 0
  lasttokencolumn := 0
  nvalue := 0
  fvalue := 0
  longstr := []

/-! ### One character -/

variable {s s' : SQLexer w F}

/-- The lexer one character further -/
def advanced (s : SQLexer w F) : SQLexer w F :=
  { s with
    source := s.source.tail
    currdata := lexChar (s.source.headD 0)
    reached_eof := s.reached_eof || s.source.headD 0 = 0
    currentcolumn := s.currentcolumn + 1 }

theorem errorIf_pass {wrong : Prop} [Decidable wrong] {err : String} (h : ¬wrong) :
    errorIf wrong err s = .ok () s := by
  rw [errorIf, if_neg h]
  rfl

theorem next_run (h : s.source.headD 0 ≤ MAX_CHAR) :
    next s = .ok () { s with
      source := s.source.tail
      currdata := lexChar (s.source.headD 0)
      reached_eof := s.reached_eof || s.source.headD 0 = 0 } := by
  refine (Program.bind_ok rfl).trans ((Program.bind_ok rfl).trans ?_)
  refine (Program.bind_ok (errorIf_pass (not_lt.mpr h))).trans ?_
  by_cases hzero : s.source.headD 0 = 0
  · rw [if_neg (not_not.mpr hzero), hzero, decide_eq_true rfl, Bool.or_true]
    rfl
  · rw [if_pos hzero, decide_eq_false hzero, Bool.or_false]
    rfl

theorem NEXT_run (h : s.source.headD 0 ≤ MAX_CHAR) : NEXT s = .ok () s.advanced :=
  Program.bind_ok (next_run h)

end SQLexer

end Squirt
