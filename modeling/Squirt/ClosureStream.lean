import Squirt.ByteStream

/-!
# The bytecode stream

`SQClosure::Save` and `SQClosure::Load` with the prototypes they write and read. Memory has
the lowest byte first.
-/

namespace Squirt.ClosureStream

open ByteStream

/-- How the interpreter was built, and what lies in memory. -/
structure Platform where
  /-- `SQUNICODE` -/
  unicode : Bool
  /-- by how much an `SQUnsignedInteger` is larger than an `SQOuterType` -/
  pad : ℕ
  sizeofSQFloat : ℕ
  /-- what lies behind a `_type` when so many bytes are in the stream -/
  behind : ℕ → BitVec (8 * pad)

namespace Platform

variable (P : Platform)

def sizeofSQChar : ℕ := if P.unicode then 2 else 1

def sizeofSQInteger : ℕ := 4 + P.pad

abbrev SQInteger := BitVec (8 * P.sizeofSQInteger)

def rsl (l : ℕ) : ℕ := if P.unicode then l * 2 else l

/-- The size of something in memory. -/
def IsSize (n : ℕ) : Prop := n < 2 ^ (8 * P.sizeofSQInteger - 1)

instance (n : ℕ) : Decidable (P.IsSize n) := inferInstanceAs (Decidable (_ < _))

def ofSize (n : ℕ) : P.SQInteger := BitVec.ofNat _ n

end Platform

def OT_NULL : BitVec 32 := 0x01000001#32
def OT_INTEGER : BitVec 32 := 0x05000002#32
def OT_FLOAT : BitVec 32 := 0x05000004#32
def OT_STRING : BitVec 32 := 0x08000010#32

def SQ_CLOSURESTREAM_HEAD : BitVec 32 := 0x53514952#32
def SQ_CLOSURESTREAM_PART : BitVec 32 := 0x50415254#32
def SQ_CLOSURESTREAM_TAIL : BitVec 32 := 0x5441494C#32

variable {P : Platform}

structure SQString (P : Platform) where
  val : List (BitVec (8 * P.sizeofSQChar))
  isSize : P.IsSize (P.rsl val.length)

inductive SQObjectPtr (P : Platform)
  | null
  | integer (i : P.SQInteger)
  | float (f : BitVec (8 * P.sizeofSQFloat))
  | string (s : SQString P)
  /-- an object that cannot be written -/
  | other (type : BitVec 32) (h : type ∉ [OT_NULL, OT_INTEGER, OT_FLOAT, OT_STRING])

/-- `SQOuterType` is an enumeration of 32 bits. -/
structure SQOuterVar (P : Platform) where
  type : BitVec 32
  name : SQObjectPtr P
  src : SQObjectPtr P

structure SQLocalVarInfo (P : Platform) where
  name : SQObjectPtr P
  startOp : P.SQInteger
  endOp : P.SQInteger
  pos : P.SQInteger

structure SQLineInfo (P : Platform) where
  line : P.SQInteger
  op : P.SQInteger

structure SQInstruction where
  arg1 : BitVec 32
  op : BitVec 8
  arg0 : BitVec 8
  arg2 : BitVec 8
  arg3 : BitVec 8

structure SQFunctionProto (P : Platform) where
  sourcename : SQObjectPtr P
  name : SQObjectPtr P
  stacksize : P.SQInteger
  bgenerator : Bool
  varparams : P.SQInteger
  localvarinfos : List (SQLocalVarInfo P)
  lineinfos : List (SQLineInfo P)
  literals : List (SQObjectPtr P)
  parameters : List (SQObjectPtr P)
  functions : List (SQFunctionProto P)
  outervalues : List (SQOuterVar P)
  /-- the registers of the enclosing function that have the values -/
  defaultparams : List P.SQInteger
  instructions : List SQInstruction

section Layouts

def tagLayout : Layout (BitVec 32) := .word 4

def intLayout (P : Platform) : Layout P.SQInteger := .word P.sizeofSQInteger

def floatLayout (P : Platform) : Layout (BitVec (8 * P.sizeofSQFloat)) := .word _

def charLayout (P : Platform) : Layout (BitVec (8 * P.sizeofSQChar)) := .word _

def boolLayout : Layout Bool where
  size := 1
  encode b := [if b then 1#8 else 0#8]
  decode bs := bs.headD 0#8 ≠ 0#8
  length_encode _ := rfl
  decode_encode b := by cases b <;> rfl

def lineInfoLayout (P : Platform) : Layout (SQLineInfo P) :=
  ((intLayout P).pair (intLayout P)).map (fun p => ⟨p.1, p.2⟩) (fun li => (li.line, li.op))
    fun _ => rfl

def byteLayout : Layout (BitVec 8) := .word 1

def instructionLayout : Layout SQInstruction :=
  (tagLayout.pair (byteLayout.pair (byteLayout.pair (byteLayout.pair byteLayout)))).map
    (fun p => ⟨p.1, p.2.1, p.2.2.1, p.2.2.2.1, p.2.2.2.2⟩)
    (fun i => (i.arg1, i.op, i.arg0, i.arg2, i.arg3)) fun _ => rfl

/-- A `_type` and what lies behind it, written as an `SQUnsignedInteger`. -/
def outerTypeLayout (P : Platform) : Layout (BitVec 32 × BitVec (8 * P.pad)) :=
  tagLayout.pair (.word P.pad)

end Layouts

abbrev Write := ByteStream.Writer String
abbrev Read := ByteStream.Reader String

/-- `SafeWrite`, with a function that writes all of it. -/
def safeWrite (bs : List Byte) : Write := fun out => .ok (out ++ bs)

def safeRead (size : ℕ) : Read (List Byte) := fun bs =>
  if size ≤ bs.length then .ok (bs.take size, bs.drop size)
  else .error (.error
    "io error, read function failure, the origin stream could be corrupted/trucated")

variable {α : Type}

def writeValue (l : Layout α) (a : α) : Write := safeWrite (l.encode a)

def readValue (l : Layout α) : Read α := do return l.decode (← safeRead l.size)

def writeArray (l : Layout α) (as : List α) : Write := safeWrite (as.flatMap l.encode)

/-- The size is computed as an `SQInteger`; a negative one cannot be read. -/
def readArray (l : Layout α) (n : P.SQInteger) : Read (List α) := do
  let size := P.ofSize l.size * n
  if size.msb then Reader.raise (.error
    "io error, read function failure, the origin stream could be corrupted/trucated")
  else return l.decodeArray n.toNat (← safeRead size.toNat)

def writeTag (tag : BitVec 32) : Write := writeValue tagLayout tag

def checkTag (tag : BitVec 32) : Read Unit := do
  let t ← readValue tagLayout
  if t ≠ tag then Reader.raise (.error "invalid or corrupted closure stream") else return ()

def writeInt (i : P.SQInteger) : Write := writeValue (intLayout P) i

def readInt (P : Platform) : Read P.SQInteger := readValue (intLayout P)

namespace SQObjectPtr

def type : SQObjectPtr P → BitVec 32
  | null => OT_NULL
  | integer _ => OT_INTEGER
  | float _ => OT_FLOAT
  | string _ => OT_STRING
  | other t _ => t

/-- `WriteObject` -/
def write (o : SQObjectPtr P) : Write :=
  (writeTag o.type).andThen <| match o with
    | string s => (writeInt (P.ofSize s.val.length)).andThen (writeArray (charLayout P) s.val)
    | integer i => writeInt i
    | float f => writeValue (floatLayout P) f
    | null => Writer.done
    | other _ _ => fun _ => .error "cannot serialize a %s"

end SQObjectPtr

/-- `SQString::Create` of the characters in the scratch pad. -/
def createString (len : P.SQInteger) (pad : List Byte) : Read (SQObjectPtr P) :=
  let val := (charLayout P).decodeArray len.toNat pad
  if h : P.IsSize (P.rsl val.length) then return .string ⟨val, h⟩
  else Reader.raise (.error
    "io error, read function failure, the origin stream could be corrupted/trucated")

def readObject (P : Platform) : Read (SQObjectPtr P) := do
  let t ← readValue tagLayout
  if t = OT_STRING then
    let len ← readInt P
    let size : P.SQInteger := if P.unicode then len <<< 1 else len
    if size.msb then Reader.raise (.error
      "io error, read function failure, the origin stream could be corrupted/trucated")
    else createString len (← safeRead size.toNat)
  else if t = OT_INTEGER then return .integer (← readInt P)
  else if t = OT_FLOAT then return .float (← readValue (floatLayout P))
  else if t = OT_NULL then return .null
  else Reader.raise (.error "cannot serialize a %s")

def writeOuterType (type : BitVec 32) : Write := fun out =>
  writeValue (outerTypeLayout P) (type, P.behind out.length) out

/-- `(SQOuterType)type` of the integer that was read. -/
def readOuterType (P : Platform) : Read (BitVec 32) := do
  return (← readInt P).setWidth 32

def SQOuterVar.write (v : SQOuterVar P) : Write :=
  (writeOuterType (P := P) v.type).andThen (v.src.write.andThen v.name.write)

def readOuterVar (P : Platform) : Read (SQOuterVar P) := do
  let type ← readOuterType P
  let src ← readObject P
  let name ← readObject P
  return { type, name, src }

def SQLocalVarInfo.write (lvi : SQLocalVarInfo P) : Write :=
  lvi.name.write.andThen
    ((writeInt lvi.pos).andThen ((writeInt lvi.startOp).andThen (writeInt lvi.endOp)))

def readLocalVarInfo (P : Platform) : Read (SQLocalVarInfo P) := do
  let name ← readObject P
  let pos ← readInt P
  let startOp ← readInt P
  let endOp ← readInt P
  return { name, startOp, endOp, pos }

/-- `for(i = 0; i < n; i++)` -/
def readEach (x : Read α) (n : P.SQInteger) : Read (List α) :=
  x.repeated n.toInt.toNat

namespace SQFunctionProto

/-- `SQFunctionProto::Save` up to the inner functions. -/
def saveSections (p : SQFunctionProto P) : Write :=
  (writeTag SQ_CLOSURESTREAM_PART).andThen <|
  p.sourcename.write.andThen <|
  p.name.write.andThen <|
  (writeTag SQ_CLOSURESTREAM_PART).andThen <|
  (writeInt (P.ofSize p.literals.length)).andThen <|
  (writeInt (P.ofSize p.parameters.length)).andThen <|
  (writeInt (P.ofSize p.outervalues.length)).andThen <|
  (writeInt (P.ofSize p.localvarinfos.length)).andThen <|
  (writeInt (P.ofSize p.lineinfos.length)).andThen <|
  (writeInt (P.ofSize p.defaultparams.length)).andThen <|
  (writeInt (P.ofSize p.instructions.length)).andThen <|
  (writeInt (P.ofSize p.functions.length)).andThen <|
  (writeTag SQ_CLOSURESTREAM_PART).andThen <|
  (Writer.each SQObjectPtr.write p.literals).andThen <|
  (writeTag SQ_CLOSURESTREAM_PART).andThen <|
  (Writer.each SQObjectPtr.write p.parameters).andThen <|
  (writeTag SQ_CLOSURESTREAM_PART).andThen <|
  (Writer.each SQOuterVar.write p.outervalues).andThen <|
  (writeTag SQ_CLOSURESTREAM_PART).andThen <|
  (Writer.each SQLocalVarInfo.write p.localvarinfos).andThen <|
  (writeTag SQ_CLOSURESTREAM_PART).andThen <|
  (writeArray (lineInfoLayout P) p.lineinfos).andThen <|
  (writeTag SQ_CLOSURESTREAM_PART).andThen <|
  (writeArray (intLayout P) p.defaultparams).andThen <|
  (writeTag SQ_CLOSURESTREAM_PART).andThen <|
  (writeArray instructionLayout p.instructions).andThen <|
  writeTag SQ_CLOSURESTREAM_PART

/-- `SQFunctionProto::Load` up to the inner functions, and how many of them there are. -/
def loadSections (P : Platform) : Read (SQFunctionProto P × P.SQInteger) := do
  checkTag SQ_CLOSURESTREAM_PART
  let sourcename ← readObject P
  let name ← readObject P
  checkTag SQ_CLOSURESTREAM_PART
  let nliterals ← readInt P
  let nparameters ← readInt P
  let noutervalues ← readInt P
  let nlocalvarinfos ← readInt P
  let nlineinfos ← readInt P
  let ndefaultparams ← readInt P
  let ninstructions ← readInt P
  let nfunctions ← readInt P
  checkTag SQ_CLOSURESTREAM_PART
  let literals ← readEach (readObject P) nliterals
  checkTag SQ_CLOSURESTREAM_PART
  let parameters ← readEach (readObject P) nparameters
  checkTag SQ_CLOSURESTREAM_PART
  let outervalues ← readEach (readOuterVar P) noutervalues
  checkTag SQ_CLOSURESTREAM_PART
  let localvarinfos ← readEach (readLocalVarInfo P) nlocalvarinfos
  checkTag SQ_CLOSURESTREAM_PART
  let lineinfos ← readArray (lineInfoLayout P) nlineinfos
  checkTag SQ_CLOSURESTREAM_PART
  let defaultparams ← readArray (intLayout P) ndefaultparams
  checkTag SQ_CLOSURESTREAM_PART
  let instructions ← readArray instructionLayout ninstructions
  checkTag SQ_CLOSURESTREAM_PART
  return ({ sourcename, name, stacksize := 0, bgenerator := false, varparams := 0,
            localvarinfos, lineinfos, literals, parameters, functions := [], outervalues,
            defaultparams, instructions }, nfunctions)

def saveFlags (p : SQFunctionProto P) : Write :=
  (writeInt p.stacksize).andThen
    ((writeValue boolLayout p.bgenerator).andThen (writeInt p.varparams))

def loadFlags (p : SQFunctionProto P) : Read (SQFunctionProto P) := do
  let stacksize ← readInt P
  let bgenerator ← readValue boolLayout
  let varparams ← readInt P
  return { p with stacksize, bgenerator, varparams }

mutual

def save : SQFunctionProto P → Write
  | { sourcename, name, stacksize, bgenerator, varparams, localvarinfos, lineinfos, literals,
      parameters, functions, outervalues, defaultparams, instructions } =>
    let p : SQFunctionProto P :=
      { sourcename, name, stacksize, bgenerator, varparams, localvarinfos, lineinfos, literals,
        parameters, functions, outervalues, defaultparams, instructions }
    p.saveSections.andThen ((saveAll functions).andThen p.saveFlags)

def saveAll : List (SQFunctionProto P) → Write
  | [] => Writer.done
  | f :: fs => (save f).andThen (saveAll fs)

end

/-- `SQFunctionProto::Load`; the fuel bounds how deep functions are nested. -/
def loadNested (P : Platform) : ℕ → Read (SQFunctionProto P)
  | 0 => Reader.raise .fuel
  | fuel + 1 => do
    let (p, nfunctions) ← loadSections P
    let functions ← readEach (loadNested P fuel) nfunctions
    loadFlags { p with functions }

def load (P : Platform) : Read (SQFunctionProto P) := fun bs =>
  loadNested P (bs.length + 1) bs

end SQFunctionProto

/-- `SQClosure::Save` of a closure of `p`. -/
def saveClosure (p : SQFunctionProto P) : Write :=
  (writeTag SQ_CLOSURESTREAM_HEAD).andThen <|
  (writeTag (BitVec.ofNat 32 P.sizeofSQChar)).andThen <|
  (writeTag (BitVec.ofNat 32 P.sizeofSQInteger)).andThen <|
  (writeTag (BitVec.ofNat 32 P.sizeofSQFloat)).andThen <|
  p.save.andThen (writeTag SQ_CLOSURESTREAM_TAIL)

/-- `SQClosure::Load`: the prototype of the new closure. -/
def loadClosure (P : Platform) : Read (SQFunctionProto P) := do
  checkTag SQ_CLOSURESTREAM_HEAD
  checkTag (BitVec.ofNat 32 P.sizeofSQChar)
  checkTag (BitVec.ofNat 32 P.sizeofSQInteger)
  checkTag (BitVec.ofNat 32 P.sizeofSQFloat)
  let func ← SQFunctionProto.load P
  checkTag SQ_CLOSURESTREAM_TAIL
  return func

end Squirt.ClosureStream
