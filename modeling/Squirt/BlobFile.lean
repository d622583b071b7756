import Mathlib.Data.List.TakeDrop
import Squirt.MachineIntegers

/-!
# Blobs

`SQBlob` against a file of bytes that grows when it is written at its end. A `SQInteger` has
`n + 1` bits, and its sums wrap around; `none` is an access outside the buffer.
-/

namespace Squirt.Blob

open MachineIntegers

/-- `SQ_SEEK_CUR` and so on -/
inductive SeekOrigin
  | cur | end_ | set
  deriving DecidableEq

section Model

variable (n : ℕ)

/-- A sum or a difference of `SQInteger`s -/
abbrev sqInteger (z : ℤ) : ℤ := wrap (n + 1) z

/-- `buf` is the block at `_buf`. -/
structure SQBlob where
  size : ℤ
  allocated : ℤ
  ptr : ℤ
  buf : List UInt8
  owns : Bool

/-- `memcpy(&buf[pos], bytes, ..)` -/
def copyInto (buf : List UInt8) (pos : ℤ) (bytes : List UInt8) : Option (List UInt8) :=
  if 0 ≤ pos ∧ pos + bytes.length ≤ buf.length then
    some (buf.take pos.toNat ++ bytes ++ buf.drop (pos.toNat + bytes.length))
  else none

/-- `memcpy(.., &buf[pos], count)` -/
def copyFrom (buf : List UInt8) (pos count : ℤ) : Option (List UInt8) :=
  if 0 ≤ pos ∧ 0 ≤ count ∧ pos + count ≤ buf.length then
    some ((buf.drop pos.toNat).take count.toNat)
  else none

/-- `sq_malloc(size)` and `memset` to zero -/
def zeros (size : ℤ) : Option (List UInt8) :=
  if 0 ≤ size then some (List.replicate size.toNat 0) else none

namespace SQBlob

/-- `SQBlob(size)` -/
def create (size : ℕ) : SQBlob := ⟨size, size, 0, List.replicate size 0, true⟩

variable (b : SQBlob)

def canAdvance (count : ℤ) : Bool := if sqInteger n (b.ptr + count) > b.size then false else true

def resize (count : ℤ) : Option (SQBlob × Bool) :=
  if !b.owns then some (b, false)
  else if count ≠ b.allocated then do
    let newbuf ← zeros count
    let bytes ← copyFrom b.buf 0 (if b.size > count then count else b.size)
    let buf ← copyInto newbuf 0 bytes
    some ({ b with
      buf := buf
      allocated := count
      size := if b.size > count then count else b.size
      ptr := if b.ptr > count then count else b.ptr }, true)
  else some (b, true)

def growBufOf (count : ℤ) : Option (SQBlob × Bool) := do
  let size := sqInteger n (b.size + count)
  let double := sqInteger n (b.size * 2)
  let (b, ret) ← (if size > b.allocated then b.resize (if size > double then size else double)
    else some (b, true) : Option (SQBlob × Bool))
  some ({ b with size := sqInteger n (b.size + count) }, ret)

def write (bytes : List UInt8) : Option (SQBlob × ℤ) := do
  let size : ℤ := bytes.length
  let b ← (if !b.canAdvance n size then
      (b.growBufOf n (sqInteger n (sqInteger n (b.ptr + size) - b.size))).map Prod.fst
    else some b : Option SQBlob)
  let buf ← copyInto b.buf b.ptr bytes
  some ({ b with buf := buf, ptr := sqInteger n (b.ptr + size) }, size)

/-- The bytes that are read; as many are returned. -/
def read (size : ℤ) : Option (SQBlob × List UInt8) :=
  let rest := sqInteger n (b.size - b.ptr)
  if !b.canAdvance n size && !(rest > 0) then some (b, [])
  else do
    let count := if !b.canAdvance n size then rest else size
    let bytes ← copyFrom b.buf b.ptr count
    some ({ b with ptr := sqInteger n (b.ptr + count) }, bytes)

def seek (offset : ℤ) (origin : SeekOrigin) : SQBlob × ℤ :=
  let ptr := match origin with
    | .set => offset
    | .cur => sqInteger n (b.ptr + offset)
    | .end_ => sqInteger n (b.size + offset)
  if ptr > b.size ∨ ptr < 0 then (b, -1) else ({ b with ptr := ptr }, 0)

end SQBlob

/-- A transfer is of a number of bytes that a `SQInteger` can hold. -/
inductive BlobOp
  | write (bytes : List UInt8) (h : bytes.length < 2 ^ n)
  | read (size : ℕ) (h : size < 2 ^ n)
  | seek (offset : BitVec (n + 1)) (origin : SeekOrigin)
  | tell
  | len
  | eos

inductive BlobResult
  | integer (i : ℤ)
  | bytes (bytes : List UInt8)
  | bool (b : Bool)
  deriving DecidableEq

def SQBlob.step (b : SQBlob) : BlobOp n → Option (SQBlob × BlobResult)
  | .write bytes _ => (b.write n bytes).map fun (b, i) => (b, .integer i)
  | .read size _ => (b.read n size).map fun (b, bytes) => (b, .bytes bytes)
  | .seek offset origin =>
    let (b, i) := b.seek n offset.toInt origin
    some (b, .integer i)
  | .tell => some (b, .integer b.ptr)
  | .len => some (b, .integer b.size)
  | .eos => some (b, .bool (b.ptr = b.size))

end Model

/-- The reference: bytes and a place in them -/
structure ByteFile where
  contents : List UInt8
  pos : ℕ
  inside : pos ≤ contents.length

namespace ByteFile

def create (size : ℕ) : ByteFile := ⟨List.replicate size 0, 0, Nat.zero_le _⟩

variable (f : ByteFile)

def write (bytes : List UInt8) : ByteFile where
  contents := f.contents.take f.pos ++ bytes ++ f.contents.drop (f.pos + bytes.length)
  pos := f.pos + bytes.length
  inside := by
    have := f.inside
    simp only [List.length_append, List.length_take, List.length_drop]
    omega

def read (size : ℕ) : ByteFile × List UInt8 :=
  let count := min size (f.contents.length - f.pos)
  (⟨f.contents, f.pos + count, by have := f.inside; omega⟩, (f.contents.drop f.pos).take count)

/-- Where a place is asked for -/
def target (offset : ℤ) : SeekOrigin → ℤ
  | .set => offset
  | .cur => f.pos + offset
  | .end_ => f.contents.length + offset

def seek (offset : ℤ) (origin : SeekOrigin) : ByteFile × ℤ :=
  if h : 0 ≤ f.target offset origin ∧ f.target offset origin ≤ f.contents.length then
    (⟨f.contents, (f.target offset origin).toNat, by omega⟩, 0)
  else (f, -1)

def step {n : ℕ} : BlobOp n → ByteFile × BlobResult
  | .write bytes _ => (f.write bytes, .integer bytes.length)
  | .read size _ => ((f.read size).1, .bytes (f.read size).2)
  | .seek offset origin => ((f.seek offset.toInt origin).1, .integer (f.seek offset.toInt origin).2)
  | .tell => (f, .integer f.pos)
  | .len => (f, .integer f.contents.length)
  | .eos => (f, .bool (f.pos = f.contents.length))

end ByteFile

/-- The blob stands for the file, and its position, size and capacity are in order. -/
structure SQBlob.Represents (n : ℕ) (b : SQBlob) (f : ByteFile) : Prop where
  pos : b.ptr = f.pos
  size : b.size = f.contents.length
  room : b.size ≤ b.allocated
  block : b.buf.length = b.allocated
  contents : b.buf.take f.contents.length = f.contents
  owns : b.owns = true
  bound : b.allocated < 2 ^ n

variable {n : ℕ} {b : SQBlob} {f : ByteFile}

theorem sqInteger_eq {z : ℤ} (hlow : -2 ^ n ≤ z) (hhigh : z < 2 ^ n) : sqInteger n z = z :=
  (fits_iff (Nat.succ_pos n)).mpr ⟨hlow, hhigh⟩

theorem sqInteger_of_nonneg {z : ℤ} (h : 0 ≤ z) (hhigh : z < 2 ^ n) : sqInteger n z = z :=
  sqInteger_eq ((neg_nonpos_of_nonneg (by positivity)).trans h) hhigh

private theorem sqInteger_lt (z : ℤ) : sqInteger n z < 2 ^ n :=
  ((fits_iff (Nat.succ_pos n)).mp (fits_wrap z)).2

/-- A sum that wraps around is negative. -/
theorem sqInteger_add {a o : ℤ} (ha : 0 ≤ a) (ha' : a < 2 ^ n) (ho : -2 ^ n ≤ o) (ho' : o < 2 ^ n) :
    sqInteger n (a + o) = a + o ∨ sqInteger n (a + o) < 0 ∧ 2 ^ n ≤ a + o := by
  by_cases hwraps : 2 ^ n ≤ a + o
  · have heq : sqInteger n (a + o) = a + o - 2 * 2 ^ n := wrap_eq_sub hwraps (by omega)
    exact .inr ⟨by omega, hwraps⟩
  · exact .inl (sqInteger_eq (by omega) (by omega))

theorem represents_create {size : ℕ} (h : size < 2 ^ n) :
    (SQBlob.create size).Represents n (.create size) where
  pos := rfl
  size := by simp [SQBlob.create, ByteFile.create]
  room := le_rfl
  block := by simp [SQBlob.create]
  contents := by simp [SQBlob.create, ByteFile.create]
  owns := rfl
  bound := by
    change (size : ℤ) < 2 ^ n
    exact_mod_cast h

section Represents

variable (h : b.Represents n f)

include h

theorem SQBlob.Represents.bounds : 0 ≤ b.ptr ∧ b.ptr ≤ b.size ∧ b.size ≤ b.allocated := by
  have := f.inside
  have := h.pos
  have := h.size
  exact ⟨by omega, by omega, h.room⟩

/-- A sum that does not wrap around -/
theorem SQBlob.Represents.canAdvance {count : ℤ} (hcount : 0 ≤ count)
    (hfits : b.ptr + count < 2 ^ n) :
    b.canAdvance n count = decide (b.ptr + count ≤ b.size) := by
  obtain ⟨hptr, -, -⟩ := h.bounds
  have hpos : (0 : ℤ) < 2 ^ n := by positivity
  rw [SQBlob.canAdvance, sqInteger_eq (by omega) hfits]
  by_cases hle : b.ptr + count ≤ b.size
  · rw [if_neg (by omega), decide_eq_true hle]
  · rw [if_pos (by omega), decide_eq_false hle]

/-- A sum that does -/
theorem SQBlob.Represents.canAdvance_wrapped {count : ℤ} (hcount : count < 2 ^ n)
    (hwraps : 2 ^ n ≤ b.ptr + count) : b.canAdvance n count = true := by
  obtain ⟨hptr, hsize, hroom⟩ := h.bounds
  have hbound := h.bound
  rw [SQBlob.canAdvance, sqInteger, wrap_eq_sub hwraps (by omega), if_neg (by omega)]

/-- `Resize` to a capacity for what there is -/
theorem SQBlob.Represents.resize {count : ℤ} (hsize : b.size ≤ count) (hbound : count < 2 ^ n) :
    ∃ b', b.resize count = some (b', true) ∧ b'.Represents n f ∧ count ≤ b'.allocated := by
  obtain ⟨hptr, hle, hroom⟩ := h.bounds
  by_cases heq : count = b.allocated
  · exact ⟨b, by simp [SQBlob.resize, h.owns, heq], h, heq.le⟩
  · have hzeros : zeros count = some (List.replicate count.toNat 0) := if_pos (by omega)
    have hblock := h.block
    have hfrom : copyFrom b.buf 0 b.size = some f.contents := by
      rw [copyFrom, if_pos ⟨le_rfl, by omega, by omega⟩, h.size]
      simpa using h.contents
    have hlen : (f.contents.length : ℤ) ≤ count := h.size ▸ hsize
    have hinto : copyInto (List.replicate count.toNat 0) 0 f.contents =
        some (f.contents ++ List.replicate (count.toNat - f.contents.length) 0) := by
      rw [copyInto, if_pos ⟨le_rfl, by simp only [List.length_replicate]; omega⟩]
      simp
    refine ⟨⟨b.size, count, b.ptr, f.contents ++ List.replicate (count.toNat - f.contents.length) 0,
      b.owns⟩, ?_, ⟨h.pos, h.size, hsize, ?_, ?_, h.owns, hbound⟩, le_rfl⟩
    · have hkeep : ¬b.size > count := not_lt.mpr hsize
      have hkeep' : ¬b.ptr > count := not_lt.mpr (hle.trans hsize)
      rw [SQBlob.resize, if_neg (by simp [h.owns]), if_pos heq, if_neg hkeep, if_neg hkeep']
      simp only [hzeros, hfrom, hinto, Option.bind_eq_bind, Option.bind_some]
    · simp only [List.length_append, List.length_replicate]
      omega
    · simp

/-- `GrowBufOf` for bytes behind the end -/
theorem SQBlob.Represents.growBufOf {count : ℤ} (hcount : 0 ≤ count)
    (hfits : b.size + count < 2 ^ n) : ∃ b', b.growBufOf n count = some (b', true) ∧
      b'.ptr = b.ptr ∧ b'.size = b.size + count ∧ b'.size ≤ b'.allocated ∧
      b'.buf.length = b'.allocated ∧ b'.buf.take f.contents.length = f.contents ∧
      b'.owns = true ∧ b'.allocated < 2 ^ n := by
  obtain ⟨hptr, hle, hroom⟩ := h.bounds
  have hbound := h.bound
  have hsum : sqInteger n (b.size + count) = b.size + count := sqInteger_eq (by omega) hfits
  obtain ⟨b', hb', hrep, hgrown⟩ : ∃ b', (if b.size + count > b.allocated then
      b.resize (if b.size + count > sqInteger n (b.size * 2) then b.size + count
        else sqInteger n (b.size * 2)) else some (b, true)) = some (b', true) ∧
      b'.Represents n f ∧ b.size + count ≤ b'.allocated := by
    split_ifs with hfull hdouble
    · exact h.resize (by omega) hfits
    · -- the double is a `SQInteger` and not less than what is needed
      obtain ⟨b', hb', hrep, hgrown⟩ := h.resize (by omega) (sqInteger_lt (b.size * 2))
      exact ⟨b', hb', hrep, by omega⟩
    · exact ⟨b, rfl, h, not_lt.mp hfull⟩
  have hptr' : b'.ptr = b.ptr := hrep.pos.trans h.pos.symm
  have hsize' : b'.size = b.size := hrep.size.trans h.size.symm
  refine ⟨{ b' with size := b.size + count }, ?_, hptr', rfl, hgrown, hrep.block, hrep.contents,
    hrep.owns, hrep.bound⟩
  rw [SQBlob.growBufOf, hsum]
  dsimp only
  rw [hb', Option.bind_eq_bind, Option.bind_some]
  dsimp only
  rw [hsize', hsum]

end Represents

/-- What `memcpy` over the place leaves of a block that starts with the contents -/
theorem ByteFile.write_contents (f : ByteFile) (bytes rest : List UInt8) :
    (f.contents ++ rest).take f.pos ++ bytes ++ (f.contents ++ rest).drop (f.pos + bytes.length) =
      (f.write bytes).contents ++ rest.drop (f.pos + bytes.length - f.contents.length) := by
  rw [List.take_append_of_le_length f.inside, List.drop_append, ← List.append_assoc]
  rfl

theorem ByteFile.write_length (f : ByteFile) (bytes : List UInt8) :
    (f.write bytes).contents.length = max f.contents.length (f.pos + bytes.length) := by
  have := f.inside
  simp only [ByteFile.write, List.length_append, List.length_take, List.length_drop]
  omega

/-- `memcpy` into the block, when there is room in it -/
theorem copyInto_contents {buf : List UInt8} (bytes : List UInt8)
    (hcontents : buf.take f.contents.length = f.contents)
    (hroom : f.pos + bytes.length ≤ buf.length) (hlen : f.contents.length ≤ buf.length) :
    ∃ buf', copyInto buf f.pos bytes = some buf' ∧ buf'.length = buf.length ∧
      buf'.take (f.write bytes).contents.length = (f.write bytes).contents := by
  have hinside := f.inside
  obtain ⟨rest, rfl⟩ : ∃ rest, buf = f.contents ++ rest :=
    ⟨buf.drop f.contents.length, by
      conv_lhs => rw [← List.take_append_drop f.contents.length buf, hcontents]⟩
  refine ⟨_, if_pos ⟨by omega, by exact_mod_cast hroom⟩, ?_, ?_⟩
  · simp only [Int.toNat_natCast, List.length_append, List.length_take, List.length_drop] at *
    omega
  · rw [Int.toNat_natCast, f.write_contents, List.take_left]

section Operations

variable (h : b.Represents n f)

include h

/-- `Write` first makes room. -/
theorem SQBlob.Represents.makeRoom {bytes : List UInt8} (hfits : f.pos + bytes.length < 2 ^ n) :
    ∃ b', (if !b.canAdvance n bytes.length then
        (b.growBufOf n (sqInteger n (sqInteger n (b.ptr + bytes.length) - b.size))).map Prod.fst
      else some b) = some b' ∧
      b'.ptr = b.ptr ∧ b'.size = (f.write bytes).contents.length ∧ b'.size ≤ b'.allocated ∧
      b'.buf.length = b'.allocated ∧ b'.buf.take f.contents.length = f.contents ∧
      b'.owns = true ∧ b'.allocated < 2 ^ n := by
  obtain ⟨hptr, hle, hroom⟩ := h.bounds
  have hpos := h.pos
  have hsize := h.size
  have hbound := h.bound
  have hlength := f.write_length bytes
  have hsum : b.ptr + bytes.length < 2 ^ n := by
    rw [hpos]
    exact_mod_cast hfits
  rw [h.canAdvance (Int.natCast_nonneg bytes.length) hsum]
  by_cases hfit : b.ptr + bytes.length ≤ b.size
  · exact ⟨b, by simp [hfit], rfl, by omega, hroom, h.block, h.contents, h.owns, hbound⟩
  · rw [sqInteger_eq (by omega) hsum, sqInteger_eq (by omega) (by omega)]
    obtain ⟨b', hgrow, hptr', hsize', hrest⟩ :=
      h.growBufOf (show 0 ≤ b.ptr + bytes.length - b.size by omega) (by omega)
    exact ⟨b', by simp [hfit, hgrow], hptr', by omega, hrest⟩

theorem SQBlob.Represents.write {bytes : List UInt8} (hfits : f.pos + bytes.length < 2 ^ n) :
    ∃ b', b.write n bytes = some (b', (bytes.length : ℤ)) ∧ b'.Represents n (f.write bytes) := by
  obtain ⟨b', hgrow, hptr, hsize, hroom, hblock, hcontents, howns, hbound⟩ := h.makeRoom hfits
  have hlength := f.write_length bytes
  obtain ⟨buf, hbuf, hlen, htake⟩ :=
    copyInto_contents bytes hcontents (by omega) (by omega)
  have hpos : b'.ptr = f.pos := hptr.trans h.pos
  have hsum : sqInteger n (f.pos + bytes.length) = f.pos + bytes.length :=
    sqInteger_of_nonneg (by omega) (by exact_mod_cast hfits)
  refine ⟨{ b' with buf := buf, ptr := f.pos + bytes.length }, ?_,
    ⟨by simp [ByteFile.write], hsize, hroom, hlen ▸ hblock, htake, howns, hbound⟩⟩
  rw [SQBlob.write, hgrow, Option.bind_eq_bind, Option.bind_some, hpos, hbuf, Option.bind_eq_bind,
    Option.bind_some, hsum]

/-- `memcpy` from the contents -/
theorem SQBlob.Represents.copyFrom {count : ℕ} (hcount : f.pos + count ≤ f.contents.length) :
    copyFrom b.buf f.pos count = some ((f.contents.drop f.pos).take count) := by
  have hroom := h.room
  have hblock := h.block
  have hsize := h.size
  rw [Blob.copyFrom, if_pos ⟨by omega, by omega, by omega⟩, Int.toNat_natCast, Int.toNat_natCast]
  conv_rhs => rw [← h.contents, List.drop_take, List.take_take, Nat.min_eq_left (by omega)]

theorem SQBlob.Represents.advance {count : ℕ} (hcount : f.pos + count ≤ f.contents.length) :
    { b with ptr := b.ptr + count }.Represents n
      ⟨f.contents, f.pos + count, hcount⟩ where
  pos := by simp [h.pos]
  size := h.size
  room := h.room
  block := h.block
  contents := h.contents
  owns := h.owns
  bound := h.bound

theorem SQBlob.Represents.read {size : ℕ} (hfits : f.pos + size < 2 ^ n) :
    ∃ b', b.read n size = some (b', (f.read size).2) ∧ b'.Represents n (f.read size).1 := by
  obtain ⟨hptr, hle, hroom⟩ := h.bounds
  have hinside := f.inside
  have hpos := h.pos
  have hsize := h.size
  have hbound := h.bound
  have hsum : b.ptr + size < 2 ^ n := by
    rw [hpos]
    exact_mod_cast hfits
  have hrest : sqInteger n (b.size - b.ptr) = ((f.contents.length - f.pos : ℕ) : ℤ) := by
    rw [sqInteger_eq (by omega) (by omega)]
    omega
  have hcopy (count : ℕ) (hcount : f.pos + count ≤ f.contents.length) : (do
      let bytes ← Blob.copyFrom b.buf b.ptr count
      some ({ b with ptr := sqInteger n (b.ptr + count) }, bytes)) =
      some ({ b with ptr := b.ptr + count }, (f.contents.drop f.pos).take count) := by
    rw [hpos, h.copyFrom hcount, Option.bind_eq_bind, Option.bind_some,
      sqInteger_of_nonneg (by omega) (by omega)]
  have hcount : f.pos + min size (f.contents.length - f.pos) ≤ f.contents.length := by omega
  refine ⟨_, ?_, h.advance hcount⟩
  refine Eq.trans ?_ (hcopy _ hcount)
  rw [SQBlob.read, h.canAdvance (Int.natCast_nonneg size) hsum, hrest]
  by_cases hall : b.ptr + size ≤ b.size
  · rw [decide_eq_true hall, Nat.min_eq_left (by omega)]
    rfl
  · rw [decide_eq_false hall, Nat.min_eq_right (by omega)]
    by_cases hsome : ((f.contents.length - f.pos : ℕ) : ℤ) > 0
    · rw [if_neg (by simpa using hsome)]
      rfl
    · rw [if_pos (by simpa using hsome), hcopy _ (by omega)]
      have hnone : f.contents.length - f.pos = 0 := by omega
      simp [hnone]

/-- An offset that wraps around leads outside, as the exact sum does. -/
theorem SQBlob.Represents.seek (offset : BitVec (n + 1)) (origin : SeekOrigin) :
    (b.seek n offset.toInt origin).2 = (f.seek offset.toInt origin).2 ∧
      (b.seek n offset.toInt origin).1.Represents n (f.seek offset.toInt origin).1 := by
  obtain ⟨hptr, hle, hroom⟩ := h.bounds
  have hpos := h.pos
  have hsize := h.size
  have hbound := h.bound
  obtain ⟨hlow, hhigh⟩ := (fits_iff (Nat.succ_pos n)).mp (fits_toInt offset)
  simp only [Nat.succ_eq_add_one, Nat.add_sub_cancel] at hlow hhigh
  have hcur := sqInteger_add hptr (hle.trans_lt (hroom.trans_lt hbound)) hlow hhigh
  have hend := sqInteger_add (hptr.trans hle) (hroom.trans_lt hbound) hlow hhigh
  generalize offset.toInt = offset at *
  set ptr : ℤ := match origin with
    | .set => offset
    | .cur => sqInteger n (b.ptr + offset)
    | .end_ => sqInteger n (b.size + offset) with hset
  have htarget : (ptr > b.size ∨ ptr < 0) ∧
      ¬(0 ≤ f.target offset origin ∧ f.target offset origin ≤ f.contents.length) ∨
      ¬(ptr > b.size ∨ ptr < 0) ∧ ptr = f.target offset origin := by
    cases origin with
    | cur | end_ =>
      simp only [ByteFile.target, hset]
      omega
    | set =>
      simp only [ByteFile.target, hset, and_true]
      omega
  have hseek : b.seek n offset origin =
      if ptr > b.size ∨ ptr < 0 then (b, -1) else ({ b with ptr := ptr }, 0) := rfl
  rcases htarget with ⟨hout, hout'⟩ | ⟨hin, heq⟩
  · rw [hseek, if_pos hout, ByteFile.seek, dif_neg hout']
    exact ⟨rfl, h⟩
  · have hin' : 0 ≤ f.target offset origin ∧ f.target offset origin ≤ f.contents.length := by omega
    rw [hseek, if_neg hin, ByteFile.seek, dif_pos hin']
    exact ⟨rfl, by rw [heq, Int.toNat_of_nonneg hin'.1], h.size, h.room, h.block, h.contents,
      h.owns, h.bound⟩

end Operations

/-- The operation does not lead past the greatest `SQInteger`. -/
def BlobOp.InRange (f : ByteFile) : BlobOp n → Prop
  | .write bytes _ => f.pos + bytes.length < 2 ^ n
  | .read size _ => f.pos + size < 2 ^ n
  | .seek .. | .tell | .len | .eos => True

theorem SQBlob.Represents.step (h : b.Represents n f) {op : BlobOp n} (hop : op.InRange f) :
    ∃ b', b.step n op = some (b', (f.step op).2) ∧ b'.Represents n (f.step op).1 := by
  cases op with
  | write bytes =>
    obtain ⟨b', hb', hrep⟩ := h.write hop
    exact ⟨b', by rw [SQBlob.step, hb']; rfl, hrep⟩
  | read size =>
    obtain ⟨b', hb', hrep⟩ := h.read hop
    exact ⟨b', by rw [SQBlob.step, hb']; rfl, hrep⟩
  | seek offset origin =>
    obtain ⟨hresult, hrep⟩ := h.seek offset origin
    refine ⟨_, ?_, hrep⟩
    simp only [SQBlob.step, ByteFile.step, hresult]
  | tell => exact ⟨b, by simp only [SQBlob.step, ByteFile.step, h.pos], h⟩
  | len => exact ⟨b, by simp only [SQBlob.step, ByteFile.step, h.size], h⟩
  | eos => exact ⟨b, by simp only [SQBlob.step, ByteFile.step, h.pos, h.size, Nat.cast_inj], h⟩

/-- `_ptr + n` wraps around in `CanAdvance`, and `memcpy` leaves the block. -/
theorem SQBlob.Represents.step_none (h : b.Represents n f) {op : BlobOp n} (hop : ¬op.InRange f) :
    b.step n op = none := by
  obtain ⟨hptr, hle, hroom⟩ := h.bounds
  have hpos := h.pos
  have hblock := h.block
  have hbound := h.bound
  have hwraps {count : ℕ} (hcount : ¬f.pos + count < 2 ^ n) : 2 ^ n ≤ b.ptr + count := by
    rw [hpos]
    exact_mod_cast not_lt.mp hcount
  cases op with
  | write bytes hbytes =>
    have hwraps := hwraps hop
    have hadv := h.canAdvance_wrapped (by exact_mod_cast hbytes) hwraps
    have hcopy : copyInto b.buf b.ptr bytes = none := if_neg (by omega)
    simp [SQBlob.step, SQBlob.write, hadv, hcopy]
  | read size hsize =>
    have hwraps := hwraps hop
    have hadv := h.canAdvance_wrapped (by exact_mod_cast hsize) hwraps
    have hcopy : Blob.copyFrom b.buf b.ptr size = none := if_neg (by omega)
    simp [SQBlob.step, SQBlob.read, hadv, hcopy]
  | seek | tell | len | eos => exact absurd trivial hop

/-- The blob does what the file does, operation after operation, inside its block. -/
def Refines : List (BlobOp n) → SQBlob → ByteFile → Prop
  | [], b, f => b.Represents n f
  | op :: ops, b, f => b.Represents n f ∧
    ∃ b', b.step n op = some (b', (f.step op).2) ∧ Refines ops b' (f.step op).1

def AllInRange : List (BlobOp n) → ByteFile → Prop
  | [], _ => True
  | op :: ops, f => op.InRange f ∧ AllInRange ops (f.step op).1

theorem SQBlob.Represents.refines_iff_allInRange (h : b.Represents n f) (ops : List (BlobOp n)) :
    Refines ops b f ↔ AllInRange ops f := by
  induction ops generalizing b f with
  | nil => exact iff_of_true h trivial
  | cons op ops ih =>
    by_cases hop : op.InRange f
    · obtain ⟨b', hb', hrep⟩ := h.step hop
      constructor
      · rintro ⟨-, c, hc, hrest⟩
        obtain rfl : b' = c := congrArg Prod.fst (Option.some.inj (hb'.symm.trans hc))
        exact ⟨hop, (ih hrep).mp hrest⟩
      · rintro ⟨-, hrest⟩
        exact ⟨h, b', hb', (ih hrep).mpr hrest⟩
    · refine iff_of_false ?_ fun hall => hop hall.1
      rintro ⟨-, c, hc, -⟩
      rw [h.step_none hop] at hc
      contradiction

/-- A blob of any size refines the file as long as no transfer leads past the greatest
`SQInteger`. -/
theorem SQBlob.refines_iff (size : Fin (2 ^ n)) (ops : List (BlobOp n)) :
    Refines ops (.create size) (.create size) ↔ AllInRange ops (.create size) :=
  (represents_create size.isLt).refines_iff_allInRange ops

/-- At the end of a blob of one byte, the read of as many bytes as 64 bits can count -/
theorem SQBlob.create_not_refines :
    ¬Refines [.seek 1 .set, .read (2 ^ 63 - 1) (by decide)] (.create 1) (.create 1) (n := 63) := by
  rw [(represents_create (by decide)).refines_iff_allInRange]
  rintro ⟨-, hread, -⟩
  exact absurd hread (show ¬1 + (2 ^ 63 - 1) < 2 ^ 63 by decide)

end Squirt.Blob
