import Squirt.RexCompiler

/-!
# `format`

`sqstd_format` copies a format string into the scratch pad and prints its parameters there.
A read past the terminator of the format string and a write past the end of a buffer end the
function with `outside`.
-/

namespace Squirt.Format

open Programs

def maxFormatLen : ℕ := 20

def maxWFormatLen : ℕ := 3

def additionalFormatSpace : ℕ := 100

/-- A string of the VM: its length, and what stands before its first NUL -/
structure FormatString where
  text : CString
  size : ℕ
  fits : text.chars.length ≤ size

inductive Param (F : Type) where
  | string (s : List Char)
  | integer (i : ℤ)
  | float (f : F)
  | other

/-- What is printed -/
inductive Value (F : Type) where
  | string (s : List Char)
  | integer (i : ℤ)
  | float (f : F)

/-- The conversions between numbers, and the function of the C library -/
structure Library (F : Type) where
  tointeger : F → ℤ
  tofloat : ℤ → F
  /-- what `snprintf` prints when there is room enough -/
  snprintf : List Char → Value F → List Char

/-- The scratch pad: what is requested of it, the number of characters that were put, and the
characters -/
structure Pad where
  allocated : ℕ
  i : ℕ
  dest : List Char

inductive FormatError where
  | error (message : String)
  | outside
  deriving DecidableEq

abbrev Formatter (α : Type) := Program Pad FormatError α

section Functions

variable {F : Type} (L : Library F) (sq64 : Bool) (format : FormatString)

def throwerror {α : Type} (message : String) : Formatter α := Program.raise (.error message)

/-- `src[n]` -/
def charAt (n : ℕ) : Formatter Char :=
  if n < format.text.chars.length then pure (format.text.chars.getD n NUL)
  else if n = format.text.chars.length then pure NUL
  else Program.raise .outside

/-- `strchr("-+ #0", c)`: the terminator belongs to the string. -/
def isFlag (c : Char) : Bool := c ∈ ['-', '+', ' ', '#', '0', NUL]

def flagsLoop : ℕ → ℕ → Formatter ℕ
  | 0, _ => throw .outOfFuel
  | fuel + 1, n => do
    if isFlag (← charAt format n) then flagsLoop fuel (n + 1)
    else return n

/-- The digits of a width or a precision, in `swidth` -/
def digitsLoop (message : String) : ℕ → ℕ → List Char → Formatter (ℕ × List Char)
  | 0, _, _ => throw .outOfFuel
  | fuel + 1, n, swidth => do
    let c ← charAt format n
    if c.isDigit then
      if maxWFormatLen ≤ swidth.length then Program.raise .outside
      else if maxWFormatLen ≤ swidth.length + 1 then throwerror message
      else digitsLoop message fuel (n + 1) (swidth ++ [c])
    -- the terminator of `swidth`
    else if maxWFormatLen ≤ swidth.length then Program.raise .outside
    else return (n, swidth)

/-- `scatoi` of digits -/
def atoi (digits : List Char) : ℕ := digits.foldl (fun n c => n * 10 + digitValue c) 0

/-- The end of `validate_format`: the buffer, where the conversion stands, and the width -/
def copyFormat (start n width : ℕ) : Formatter (List Char × ℕ × ℕ) :=
  if n - start > maxFormatLen then throwerror "format too long"
  else
    let spec := ((format.text.chars ++ [NUL]).drop start).take (n - start + 1)
    -- the copied characters and the terminator behind them
    if maxFormatLen < 1 + spec.length + 1 then Program.raise .outside
    else return ('%' :: spec ++ [NUL], n, width)

/-- `validate_format` behind the width -/
def validatePrecision (start n width : ℕ) : Formatter (List Char × ℕ × ℕ) := do
  if (← charAt format n) = '.' then
    let (n, swidth) ← digitsLoop format "precision format too long" (format.text.chars.length + 2)
      (n + 1) []
    copyFormat format start n (width + atoi swidth)
  else copyFormat format start n width

def validateFormat (start : ℕ) : Formatter (List Char × ℕ × ℕ) := do
  let fuel := format.text.chars.length + 2
  let n ← flagsLoop format fuel start
  let (n, swidth) ← digitsLoop format "width format too long" fuel n []
  validatePrecision format start n (atoi swidth)

def printIntPrec : List Char := ['l', 'l']

/-- The length modifier comes before the last character of the buffer. -/
def spliceIntPrec (fmt : List Char) : Formatter (List Char) :=
  let flen := (fmt.takeWhile (· ≠ NUL)).length
  let fpos := flen - 1
  let spliced := fmt.take fpos ++ printIntPrec ++ [fmt.getD fpos NUL, NUL]
  if maxFormatLen < spliced.length then Program.raise .outside
  else return spliced ++ fmt.drop spliced.length

/-- The text of a buffer, up to its terminator -/
def cstr (fmt : List Char) : List Char := fmt.takeWhile (· ≠ NUL)

def getString (message : String) : Param F → Formatter (List Char)
  | .string s => return s
  | _ => throwerror message

def getInteger (message : String) : Param F → Formatter (Value F)
  | .integer i => return .integer i
  | .float f => return .integer (L.tointeger f)
  | _ => throwerror message

def getFloat (message : String) : Param F → Formatter (Value F)
  | .integer i => return .float (L.tofloat i)
  | .float f => return .float f
  | _ => throwerror message

/-- The characters that convert integers, but `c` -/
def integerConversions : List Char := ['i', 'd', 'o', 'u', 'x', 'X']

def floatConversions : List Char := ['f', 'g', 'G', 'e', 'E']

/-- `addlen`, the buffer and the value of a conversion -/
def convert (c : Char) (fmt : List Char) (w : ℕ) (param : Param F) :
    Formatter (ℕ × List Char × Value F) := do
  if c = 's' then
    let s ← getString "string expected for the specified format" param
    return (s.length + (w + 1), fmt, .string s)
  else if c ∈ integerConversions then
    let fmt ← if sq64 then spliceIntPrec fmt else pure fmt
    let value ← getInteger L "integer expected for the specified format" param
    return (additionalFormatSpace + (w + 1), fmt, value)
  else if c = 'c' then
    let value ← getInteger L "integer expected for the specified format" param
    return (additionalFormatSpace + (w + 1), fmt, value)
  else if c ∈ floatConversions then
    let value ← getFloat L "float expected for the specified format" param
    return (additionalFormatSpace + (w + 1), fmt, value)
  else throwerror "invalid format"

/-- `dest[i++] = c` -/
def put (c : Char) : Formatter Unit := do
  let s ← get
  if s.i < s.allocated then set { s with i := s.i + 1, dest := s.dest ++ [c] }
  else Program.raise .outside

/-- `i += scsprintf(&dest[i], allocated - i, ..)` -/
def print (text : List Char) : Formatter Unit := do
  let s ← get
  if s.i ≤ s.allocated then
    set { s with i := s.i + text.length, dest := s.dest ++ text.take (s.allocated - s.i - 1) }
  else Program.raise .outside

def formatLoop : ℕ → ℕ → List (Param F) → Formatter Unit
  | 0, _, _ => throw .outOfFuel
  | fuel + 1, n, params => do
    let c ← charAt format n
    if c = NUL then return ()
    else if c ≠ '%' then
      put c
      formatLoop fuel (n + 1) params
    else if (← charAt format (n + 1)) = '%' then
      put '%'
      formatLoop fuel (n + 2) params
    else
      match params with
      | [] => throwerror "not enough paramters for the given format string"
      | param :: params =>
        let (fmt, n, w) ← validateFormat format (n + 1)
        let (addlen, fmt, value) ← convert L sq64 (← charAt format n) fmt w param
        modify fun s => { s with allocated := s.allocated + (addlen + 1) }
        print (L.snprintf (cstr fmt) value)
        formatLoop fuel (n + 1) params

/-- `sqstd_format`; the result is what was put, and the length that is reported. -/
def sqstdFormat (params : List (Param F)) : EStateM.Result (Stop FormatError) Pad (List Char × ℕ) :=
  (do
    formatLoop L sq64 format (format.text.chars.length + 1) 0 params
    -- the terminator
    let s ← get
    if s.i < s.allocated then return (s.dest, s.i)
    else Program.raise .outside : Formatter (List Char × ℕ))
  { allocated := format.size + 2, i := 0, dest := [] }

end Functions

end Squirt.Format
