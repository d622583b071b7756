import Squirt.BlobIteration
import Squirt.ByteStream

/-!
# `writen` and `readn`

Numbers in a stream that is a blob. How a machine lays out the bytes of a word is a parameter, as
are the sign of its `char` and its floats.
-/

namespace Squirt.Blob

open Programs Program ByteStream MachineIntegers

/-- A number of the VM, with floats in `F` -/
inductive Number (F : Type) where
  | integer (i : ℤ)
  | float (x : F)

structure Machine (F : Type) where
  sq64 : Bool
  charSigned : Bool
  word : ∀ w, Layout (BitVec (8 * w))
  word_size : ∀ w, (word w).size = w
  tofloat : ℤ → F
  tointeger : F → ℤ
  /-- to `float` and back -/
  single : F → BitVec (8 * 4)
  ofSingle : BitVec (8 * 4) → F
  /-- to `double` and back -/
  double : F → BitVec (8 * 8)
  ofDouble : BitVec (8 * 8) → F

abbrev StreamProgram (α : Type) := Program SQBlob Failure α

def code (c : Char) : ℤ := c.toNat

section Model

variable {F : Type} (m : Machine F)

/-- A `SQInteger` has a bit more. -/
abbrev Machine.bits : ℕ := if m.sq64 then 63 else 31

/-- `sizeof(SQInteger)` -/
def Machine.integerSize : ℕ := if m.sq64 then 8 else 4

/-- What lies in memory for a word -/
def Machine.bytes {w : ℕ} (v : BitVec (8 * w)) : List UInt8 := ((m.word w).encode v).map UInt8.ofBitVec

def Machine.ofBytes (w : ℕ) (bytes : List UInt8) : BitVec (8 * w) :=
  (m.word w).decode (bytes.map UInt8.toBitVec)

def Machine.getinteger : Number F → ℤ
  | .integer i => i
  | .float x => m.tointeger x

def Machine.getfloat : Number F → F
  | .integer i => m.tofloat i
  | .float x => x

/-- `self->Write` -/
def write (bytes : List UInt8) : StreamProgram ℤ := fun b =>
  match b.write m.bits bytes with
  | some (b', size) => .ok size b'
  | none => .error (.raised .outside) b

/-- `self->Read` -/
def read (size : ℤ) : StreamProgram (List UInt8) := fun b =>
  match b.read m.bits size with
  | some (b', bytes) => .ok bytes b'
  | none => .error (.raised .outside) b

def safeReadn (len : ℕ) : StreamProgram (BitVec (8 * len)) := do
  let bytes ← read m len
  if bytes.length ≠ len then raise (.error "io error")
  else pure (m.ofBytes len bytes)

def streamReadn (format : ℤ) : StreamProgram (Number F) :=
  if format = code 'l' then do
    let i ← safeReadn m m.integerSize
    pure (.integer i.toInt)
  else if format = code 'i' then do
    let i ← safeReadn m 4
    pure (.integer i.toInt)
  else if format = code 's' then do
    let s ← safeReadn m 2
    pure (.integer s.toInt)
  else if format = code 'w' then do
    let w ← safeReadn m 2
    pure (.integer w.toNat)
  else if format = code 'c' then do
    let c ← safeReadn m 1
    pure (.integer (if m.charSigned then c.toInt else c.toNat))
  else if format = code 'b' then do
    let c ← safeReadn m 1
    pure (.integer c.toNat)
  else if format = code 'f' then do
    let f ← safeReadn m 4
    pure (.float (m.ofSingle f))
  else if format = code 'd' then do
    let d ← safeReadn m 8
    pure (.float (m.ofDouble d))
  else raise (.error "invalid format")

def streamWriten (value : Number F) (format : ℤ) : StreamProgram Unit :=
  if format = code 'l' then
    discard (write m (m.bytes (BitVec.ofInt (8 * m.integerSize) (m.getinteger value))))
  else if format = code 'i' then
    discard (write m (m.bytes (BitVec.ofInt (8 * 4) (m.getinteger value))))
  else if format = code 's' then
    discard (write m (m.bytes (BitVec.ofInt (8 * 2) (m.getinteger value))))
  else if format = code 'w' then
    discard (write m (m.bytes (BitVec.ofInt (8 * 2) (m.getinteger value))))
  else if format = code 'c' then
    discard (write m (m.bytes (BitVec.ofInt (8 * 1) (m.getinteger value))))
  else if format = code 'b' then
    discard (write m (m.bytes (BitVec.ofInt (8 * 1) (m.getinteger value))))
  else if format = code 'f' then
    discard (write m (m.bytes (m.single (m.getfloat value))))
  else if format = code 'd' then
    discard (write m (m.bytes (m.double (m.getfloat value))))
  else raise (.error "invalid format")

end Model

inductive IntegerFormat
  | l | i | s | w | c | b
  deriving DecidableEq

namespace IntegerFormat

def code : IntegerFormat → ℤ
  | l => Blob.code 'l'
  | i => Blob.code 'i'
  | s => Blob.code 's'
  | w => Blob.code 'w'
  | c => Blob.code 'c'
  | b => Blob.code 'b'

variable {F : Type} (m : Machine F)

/-- In bytes -/
def width : IntegerFormat → ℕ
  | l => m.integerSize
  | i => 4
  | s | w => 2
  | c | b => 1

def signed : IntegerFormat → Bool
  | l | i | s => true
  | w | b => false
  | c => m.charSigned

/-- The integer that as many bytes hold of another one -/
def reduce (f : IntegerFormat) (z : ℤ) : ℤ :=
  if f.signed m then wrap (8 * f.width m) z else z % 2 ^ (8 * f.width m)

end IntegerFormat

section Series

variable {F : Type} (m : Machine F)

def writenAll : List (ℤ × IntegerFormat) → StreamProgram Unit
  | [] => pure ()
  | (i, f) :: items => do
    streamWriten m (.integer i) f.code
    writenAll items

def readnAll : List IntegerFormat → StreamProgram (List (Number F))
  | [] => pure []
  | f :: formats => do
    let a ← streamReadn m f.code
    let rest ← readnAll formats
    pure (a :: rest)

def totalWidth (items : List (ℤ × IntegerFormat)) : ℕ := (items.map fun p => p.2.width m).sum

/-- What is written is read back, from the same place on. -/
def RoundTrips (b : SQBlob) (items : List (ℤ × IntegerFormat)) : Prop :=
  ∃ b₁ b₂ b₃, writenAll m items b = .ok () b₁ ∧ b₁.ptr = b.ptr + totalWidth m items ∧
    b₁.seek m.bits b.ptr .set = (b₂, 0) ∧
    readnAll m (items.map Prod.snd) b₂ = .ok (items.map fun p => .integer (p.2.reduce m p.1)) b₃ ∧
    b₃.ptr = b.ptr + totalWidth m items ∧
    ∀ i, i < b.ptr → b₁.byteAt i = b.byteAt i ∧ b₃.byteAt i = b.byteAt i

end Series

section Codes

variable {F : Type} (m : Machine F) (f : IntegerFormat) (z : ℤ)

def IntegerFormat.encode : List UInt8 := m.bytes (BitVec.ofInt (8 * f.width m) z)

theorem IntegerFormat.length_encode : (f.encode m z).length = f.width m := by
  rw [encode, Machine.bytes, List.length_map, (m.word _).length_encode, m.word_size]

private theorem Machine.ofBytes_bytes {w : ℕ} (v : BitVec (8 * w)) : m.ofBytes w (m.bytes v) = v
    := by
  have hback : UInt8.toBitVec ∘ UInt8.ofBitVec = id := rfl
  rw [ofBytes, bytes, List.map_map, hback, List.map_id, (m.word w).decode_encode]

/-- The cases of `writen` -/
theorem streamWriten_code :
    streamWriten m (.integer z) f.code = discard (write m (f.encode m z)) := by
  cases f <;> rfl

/-- The cases of `readn` -/
theorem streamReadn_code : streamReadn m f.code = safeReadn m (f.width m) >>= fun v =>
    pure (.integer (if f.signed m then v.toInt else v.toNat)) := by
  cases f <;> rfl

private theorem IntegerFormat.reduce_eq :
    (if f.signed m then (BitVec.ofInt (8 * f.width m) z).toInt
      else ((BitVec.ofInt (8 * f.width m) z).toNat : ℤ)) = f.reduce m z := by
  unfold reduce
  split_ifs
  · exact BitVec.toInt_ofInt z
  · have hpos : (0 : ℤ) < 2 ^ (8 * f.width m) := by positivity
    rw [BitVec.toNat_ofInt, Int.toNat_of_nonneg (Int.emod_nonneg _ (by exact_mod_cast hpos.ne'))]
    push_cast
    rfl

private theorem IntegerFormat.width_lt : f.width m < 2 ^ m.bits := by
  rw [Machine.bits]
  cases f <;> cases h : m.sq64 <;> simp [width, Machine.integerSize, h]

end Codes

theorem ByteFile.contents_write (f : ByteFile) (bytes : List UInt8) : (f.write bytes).contents =
    f.contents.take f.pos ++ (bytes ++ f.contents.drop (f.pos + bytes.length)) :=
  List.append_assoc ..

/-- A transfer and the next one are one transfer. -/
theorem ByteFile.write_write (f : ByteFile) (xs ys : List UInt8) :
    (f.write xs).write ys = f.write (xs ++ ys) := by
  have hinside := f.inside
  have hlen : (f.contents.take f.pos ++ xs).length = f.pos + xs.length := by
    rw [List.length_append, List.length_take_of_le hinside]
  simp only [ByteFile.write, ByteFile.mk.injEq, List.length_append]
  refine ⟨?_, by omega⟩
  rw [List.take_left' hlen, List.drop_append, List.drop_eq_nil_of_le (by omega), hlen,
    List.nil_append, List.drop_drop, List.append_assoc _ xs ys]
  congr 2
  omega

def encodeAll {F : Type} (m : Machine F) (items : List (ℤ × IntegerFormat)) : List UInt8 :=
  items.flatMap fun p => p.2.encode m p.1

section Runs

variable {F : Type} {m : Machine F} {b : SQBlob} {f : ByteFile}

private theorem length_encodeAll (items : List (ℤ × IntegerFormat)) :
    (encodeAll m items).length = totalWidth m items := by
  induction items with
  | nil => rfl
  | cons p items ih =>
    have hcons : encodeAll m (p :: items) = p.2.encode m p.1 ++ encodeAll m items := rfl
    rw [hcons, List.length_append, ih, p.2.length_encode]
    rfl

theorem SQBlob.Represents.streamWriten (h : b.Represents m.bits f) (z : ℤ) (a : IntegerFormat)
    (hfits : f.pos + a.width m < 2 ^ m.bits) : ∃ b', Blob.streamWriten m (.integer z) a.code b = .ok () b' ∧
      b'.Represents m.bits (f.write (a.encode m z)) := by
  rw [← a.length_encode m z] at hfits
  obtain ⟨b', hb', hrep⟩ := h.write hfits
  refine ⟨b', ?_, hrep⟩
  have hwrite : Blob.write m (a.encode m z) b = .ok ((a.encode m z).length : ℤ) b' := by
    simp only [Blob.write, hb']
  rw [streamWriten_code]
  exact bind_ok hwrite

/-- Past the greatest `SQInteger` the write leaves the block. -/
theorem SQBlob.Represents.streamWriten_outside (h : b.Represents m.bits f) (z : ℤ)
    (a : IntegerFormat)
    (hfits : ¬f.pos + a.width m < 2 ^ m.bits) :
    Blob.streamWriten m (.integer z) a.code b = .error (.raised .outside) b := by
  have hlt : (a.encode m z).length < 2 ^ m.bits := a.length_encode m z ▸ a.width_lt m
  have hnone : b.write m.bits (a.encode m z) = none := by
    have hop : ¬(BlobOp.write (a.encode m z) hlt).InRange f := by
      rwa [BlobOp.InRange, a.length_encode]
    simpa [SQBlob.step] using h.step_none hop
  have hwrite : Blob.write m (a.encode m z) b = .error (.raised .outside) b := by
    simp only [Blob.write, hnone]
  rw [streamWriten_code]
  exact bind_error hwrite

private theorem SQBlob.Represents.writenAll (h : b.Represents m.bits f)
    {items : List (ℤ × IntegerFormat)}
    (hfits : f.pos + totalWidth m items < 2 ^ m.bits) : ∃ b', Blob.writenAll m items b = .ok () b' ∧
      b'.Represents m.bits (f.write (encodeAll m items)) := by
  induction items generalizing b f with
  | nil =>
    refine ⟨b, rfl, ?_⟩
    have hnone : f.write (encodeAll m []) = f := by
      simp [encodeAll, ByteFile.write]
    rwa [hnone]
  | cons p items ih =>
    have htotal : totalWidth m (p :: items) = p.2.width m + totalWidth m items := rfl
    obtain ⟨b', hb', hrep⟩ := h.streamWriten p.1 p.2 (by omega)
    have hpos : (f.write (p.2.encode m p.1)).pos = f.pos + p.2.width m := by
      rw [← p.2.length_encode m p.1]
      rfl
    obtain ⟨b'', hb'', hrep'⟩ := ih hrep (by omega)
    rw [ByteFile.write_write] at hrep'
    exact ⟨b'', (bind_ok hb').trans hb'', hrep'⟩

private theorem SQBlob.Represents.writenAll_fits (h : b.Represents m.bits f)
    {items : List (ℤ × IntegerFormat)} {b' : SQBlob} (hrun : Blob.writenAll m items b = .ok () b') :
    f.pos + totalWidth m items < 2 ^ m.bits := by
  induction items generalizing b f with
  | nil =>
    have hpos := h.pos
    have hbound := h.bound
    obtain ⟨-, hsize, hroom⟩ := h.bounds
    have hlt : (f.pos : ℤ) < 2 ^ m.bits := by omega
    exact_mod_cast hlt
  | cons p items ih =>
    have htotal : totalWidth m (p :: items) = p.2.width m + totalWidth m items := rfl
    obtain ⟨⟨⟩, b₁, hfirst, hrest⟩ := exists_of_bind_ok hrun
    by_cases hfits : f.pos + p.2.width m < 2 ^ m.bits
    · obtain ⟨b₂, hb₂, hrep⟩ := h.streamWriten p.1 p.2 hfits
      obtain rfl : b₂ = b₁ := by
        rw [hfirst] at hb₂
        cases hb₂
        rfl
      have hpos : (f.write (p.2.encode m p.1)).pos = f.pos + p.2.width m := by
        rw [← p.2.length_encode m p.1]
        rfl
      have hall := ih hrep hrest
      omega
    · rw [h.streamWriten_outside p.1 p.2 hfits] at hfirst
      cases hfirst

/-- The bytes of an integer are next. -/
theorem SQBlob.Represents.streamReadn (h : b.Represents m.bits f) {z : ℤ} {a : IntegerFormat}
    {rest : List UInt8} (hnext : f.contents.drop f.pos = a.encode m z ++ rest) :
    ∃ b' g, Blob.streamReadn m a.code b = .ok (.integer (a.reduce m z)) b' ∧ b'.Represents m.bits g ∧
      g.contents = f.contents ∧ g.pos = f.pos + a.width m := by
  have hlen := congrArg List.length hnext
  have hwidth := a.length_encode m z
  rw [List.length_drop, List.length_append, hwidth] at hlen
  have hinside := f.inside
  have hsize := h.size
  have hroom := h.room
  have hbound := h.bound
  have hcontents : (f.contents.length : ℤ) < 2 ^ m.bits := by omega
  have hcontents' : f.contents.length < 2 ^ m.bits := by exact_mod_cast hcontents
  have hend : f.pos + a.width m < 2 ^ m.bits := by omega
  obtain ⟨b', hb', hrep⟩ := h.read hend
  have hbytes : (f.read (a.width m)).2 = a.encode m z := by
    simp only [ByteFile.read, hnext]
    rw [List.take_left' (by omega)]
  refine ⟨b', _, ?_, hrep, rfl, ?_⟩
  · have hread : Blob.read m (a.width m) b = .ok (a.encode m z) b' := by
      simp only [Blob.read, hb', hbytes]
    have hsafe : safeReadn m (a.width m) b = .ok (BitVec.ofInt (8 * a.width m) z) b' := by
      refine (bind_ok hread).trans ?_
      rw [if_neg (by rw [hwidth]; exact fun h => h rfl), IntegerFormat.encode, m.ofBytes_bytes]
      rfl
    rw [streamReadn_code]
    refine (bind_ok hsafe).trans ?_
    rw [a.reduce_eq]
    rfl
  · simp only [ByteFile.read]
    omega

private theorem SQBlob.Represents.readnAll (h : b.Represents m.bits f)
    {items : List (ℤ × IntegerFormat)}
    {rest : List UInt8} (hnext : f.contents.drop f.pos = encodeAll m items ++ rest) :
    ∃ b' g, Blob.readnAll m (items.map Prod.snd) b =
        .ok (items.map fun p => .integer (p.2.reduce m p.1)) b' ∧ b'.Represents m.bits g ∧
      g.contents = f.contents ∧ g.pos = f.pos + totalWidth m items := by
  induction items generalizing b f with
  | nil => exact ⟨b, f, rfl, h, rfl, rfl⟩
  | cons p items ih =>
    have hcons : encodeAll m (p :: items) = p.2.encode m p.1 ++ encodeAll m items := rfl
    have htotal : totalWidth m (p :: items) = p.2.width m + totalWidth m items := rfl
    rw [hcons, List.append_assoc] at hnext
    obtain ⟨b₁, g₁, hfirst, hrep, hsame, hpos⟩ := h.streamReadn hnext
    have hnext' : g₁.contents.drop g₁.pos = encodeAll m items ++ rest := by
      rw [hsame, hpos, ← List.drop_drop, hnext, List.drop_left' (p.2.length_encode m p.1)]
    obtain ⟨b₂, g₂, hrest, hrep', hsame', hpos'⟩ := ih hrep hnext'
    refine ⟨b₂, g₂, (bind_ok hfirst).trans ((bind_ok hrest).trans rfl), hrep', hsame'.trans hsame, ?_⟩
    omega

end Runs

section RoundTrip

variable {F : Type} {m : Machine F} {b : SQBlob} {f : ByteFile}

/-- Back to a place of the contents -/
theorem SQBlob.Represents.seekSet (h : b.Represents m.bits f) {p : ℕ} (hp : p ≤ f.contents.length) :
    b.seek m.bits p .set = ({ b with ptr := p }, 0) ∧
      { b with ptr := (p : ℤ) }.Represents m.bits ⟨f.contents, p, hp⟩ := by
  have hsize := h.size
  refine ⟨if_neg (by dsimp only; omega), ?_⟩
  exact ⟨rfl, h.size, h.room, h.block, h.contents, h.owns, h.bound⟩

/-- The bytes before the place -/
theorem SQBlob.Represents.byteAt_write {b' : SQBlob} {g : ByteFile} {bytes : List UInt8}
    (h : b.Represents m.bits f) (hrep : b'.Represents m.bits g)
    (hsame : g.contents = (f.write bytes).contents) {i : ℤ} (hi : i < f.pos) :
    b'.byteAt i = b.byteAt i := by
  by_cases hneg : i < 0
  · simp only [SQBlob.byteAt, if_pos hneg]
  · obtain ⟨k, rfl⟩ : ∃ k : ℕ, i = k := ⟨i.toNat, by omega⟩
    have hinside := f.inside
    have hlen := f.write_length bytes
    have hkeep : (f.write bytes).contents[k]? = f.contents[k]? := by
      have htake : k < (f.contents.take f.pos).length := by
        rw [List.length_take_of_le hinside]
        omega
      rw [f.contents_write, List.getElem?_append_left htake, List.getElem?_take_of_lt (by omega)]
    rw [hrep.byteAt (by rw [hsame]; omega), h.byteAt (by omega), hsame, hkeep]

theorem SQBlob.Represents.roundTrips_iff (h : b.Represents m.bits f)
    (items : List (ℤ × IntegerFormat)) :
    RoundTrips m b items ↔ f.pos + totalWidth m items < 2 ^ m.bits := by
  constructor
  · rintro ⟨b₁, -, -, hrun, -⟩
    exact h.writenAll_fits hrun
  · intro hfits
    have hpos := h.pos
    have hinside := f.inside
    obtain ⟨b₁, hwrites, hrep⟩ := h.writenAll hfits
    have hlength := length_encodeAll (m := m) items
    have hin : f.pos ≤ (f.write (encodeAll m items)).contents.length := by
      rw [f.write_length]
      omega
    obtain ⟨hseek, hback⟩ := hrep.seekSet hin
    -- what has been written is next there
    have hnext : (f.write (encodeAll m items)).contents.drop f.pos =
        encodeAll m items ++ f.contents.drop (f.pos + (encodeAll m items).length) := by
      rw [f.contents_write, List.drop_left' (List.length_take_of_le hinside)]
    obtain ⟨b₃, g, hreads, hrep', hsame, hend⟩ := hback.readnAll hnext
    have hwritten : (f.write (encodeAll m items)).pos = f.pos + totalWidth m items := by
      rw [← hlength]
      rfl
    refine ⟨b₁, _, b₃, hwrites, ?_, by rw [hpos]; exact hseek, hreads, ?_, fun i hi => ?_⟩
    · rw [hrep.pos, hwritten, hpos]
      push_cast
      rfl
    · rw [hrep'.pos, hend, hpos]
      push_cast
      rfl
    · rw [hpos] at hi
      exact ⟨h.byteAt_write hrep rfl hi, h.byteAt_write hrep' hsame hi⟩

end RoundTrip

/-- What `writen` writes, `readn` reads back if and only if the place behind it is a `SQInteger`. -/
theorem writen_readn_roundTrips_iff {F : Type} (m : Machine F) (b : HeldBlob m.bits)
    (items : List (ℤ × IntegerFormat)) :
    RoundTrips m b.1 items ↔ b.1.ptr + totalWidth m items < 2 ^ m.bits := by
  obtain ⟨b, f, h⟩ := b
  rw [h.roundTrips_iff, h.pos]
  exact_mod_cast Iff.rfl

/-- A machine with integers of 32 bits, the low byte first -/
def littleMachine : Machine Unit where
  sq64 := false
  charSigned := true
  word := Layout.word
  word_size _ := rfl
  tofloat _ := ()
  tointeger _ := 0
  single _ := 0
  ofSingle _ := ()
  double _ := 0
  ofDouble _ := ()

/-- At the end of the largest blob of 32 bits -/
theorem writen_not_roundTrips : ¬RoundTrips littleMachine
    { SQBlob.create (2 ^ 31 - 1) with ptr := (2 ^ 31 - 1 : ℕ) } [(1, .b)] := by
  have hcreate : (SQBlob.create (2 ^ 31 - 1)).Represents littleMachine.bits _ :=
    represents_create (by decide)
  have hlen : (ByteFile.create (2 ^ 31 - 1)).contents.length = 2 ^ 31 - 1 := List.length_replicate
  have hend := (hcreate.seekSet hlen.ge).2
  rw [hend.roundTrips_iff]
  exact (show ¬2 ^ 31 - 1 + 1 < 2 ^ 31 by decide)

end Squirt.Blob
