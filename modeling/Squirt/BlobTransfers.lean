import Squirt.BlobIteration

/-!
# `writeblob` and `readblob`

Transfers between blobs. `writeblob` hands `Write` the address of the block of its source, which is
the block of the blob itself when it is written to itself; `readblob` reads into the scratch pad.
-/

namespace Squirt.Blob

open MachineIntegers

section Model

variable (n : ℕ)

/-- `memcpy` inside a block: onto itself, or between parts that do not overlap -/
def copyWithin (buf : List UInt8) (dst src count : ℤ) : Option (List UInt8) :=
  if count = 0 ∨ dst = src ∨ dst + count ≤ src ∨ src + count ≤ dst then do
    let bytes ← copyFrom buf src count
    copyInto buf dst bytes
  else none

/-- `Write(GetBuf(), Len())`: `GrowBufOf` frees the block when it takes another one, which it does
when the capacity changes. -/
def SQBlob.writeItself (b : SQBlob) : Option (SQBlob × ℤ) := do
  let size := b.size
  let grown ← (if !b.canAdvance n size then
      (b.growBufOf n (sqInteger n (sqInteger n (b.ptr + size) - b.size))).map Prod.fst
    else some b : Option SQBlob)
  if size ≠ 0 ∧ grown.allocated ≠ b.allocated then none
  else do
    let buf ← copyWithin grown.buf grown.ptr 0 size
    some ({ grown with buf := buf, ptr := sqInteger n (grown.ptr + size) }, size)

/-- The argument of `writeblob` -/
inductive Source (n : ℕ)
  | itself
  | other (s : HeldBlob n)

variable {n}

def Source.blob (d : SQBlob) : Source n → SQBlob
  | .itself => d
  | .other s => s.1

def streamWriteblob (d : SQBlob) (source : Source n) : Option (Except Failure (SQBlob × ℤ)) := do
  let size := (source.blob d).size
  let (d, written) ← (match source with
    | .itself => d.writeItself n
    | .other s => do
      let data ← copyFrom s.1.buf 0 s.1.size
      d.write n data)
  some (if written ≠ size then .error (.error "io error") else .ok (d, size))

variable (n)

/-- `GetScratchPad`: the size that the scratch pad then has -/
def getScratchPad (scratchpadsize size : ℤ) : ℤ :=
  if size > 0 then
    if scratchpadsize < size then sqInteger n (size + size / 2)
    else if scratchpadsize ≥ sqInteger n (size * 32) then scratchpadsize / 2
    else scratchpadsize
  else scratchpadsize

/-- What `readblob` returns -/
structure Readblob where
  self : SQBlob
  scratchpadsize : ℤ
  result : Except Failure SQBlob

def streamReadblob (d : SQBlob) (scratchpadsize size : ℤ) : Option Readblob := do
  let size := if size > d.size then d.size else size
  let scratchpadsize := getScratchPad n scratchpadsize size
  let (d, data) ← d.read n size
  -- what is read is copied to the scratch pad
  if data ≠ [] ∧ scratchpadsize < data.length then none
  else if data.length ≤ 0 then some ⟨d, scratchpadsize, .error (.error "no data left to read")⟩
  else do
    let buf ← copyInto (List.replicate data.length 0) 0 data
    some ⟨d, scratchpadsize, .ok { SQBlob.create data.length with buf := buf }⟩

end Model

variable {n : ℕ}

/-- The bytes of the source, as they were, are in the blob from its cursor on. -/
def WritesBlob (d : HeldBlob n) (source : Source n) : Prop :=
  ∃ d' : HeldBlob n, streamWriteblob d.1 source = some (.ok (d'.1, (source.blob d.1).size)) ∧
    ∀ i : ℕ, i < (source.blob d.1).size → d'.1.byteAt (d.1.ptr + i) = (source.blob d.1).byteAt i

/-- How many bytes `readblob` is to return -/
def SQBlob.available (d : SQBlob) (size : ℤ) : ℤ := min size (d.size - d.ptr)

/-- An error and the blob as it was, or the next bytes and the cursor behind them -/
def ReadsBlob (d : HeldBlob n) (scratchpadsize : ℤ) (size : BitVec (n + 1)) : Prop :=
  ∃ r, streamReadblob n d.1 scratchpadsize size.toInt = some r ∧
    ((∃ message, r.result = .error (.error message) ∧ r.self = d.1) ∨
      ∃ b : HeldBlob n, r.result = .ok b.1 ∧ b.1.size = d.1.available size.toInt ∧
        (∀ i : ℕ, i < b.1.size → b.1.byteAt i = d.1.byteAt (d.1.ptr + i)) ∧
        r.self = { d.1 with ptr := d.1.ptr + d.1.available size.toInt })

section Writing

variable {b : SQBlob} {f : ByteFile} (h : b.Represents n f)

include h

theorem SQBlob.Represents.copyFrom_contents : Blob.copyFrom b.buf 0 b.size = some f.contents := by
  have hroom := h.room
  have hblock := h.block
  have hsize := h.size
  rw [Blob.copyFrom, if_pos ⟨le_rfl, by omega, by omega⟩, hsize, Int.toNat_natCast]
  simpa using h.contents

theorem SQBlob.Represents.byteAt_written {b' : SQBlob} {bytes : List UInt8}
    (hrep : b'.Represents n (f.write bytes)) {i : ℕ} (hi : i < bytes.length) :
    b'.byteAt (b.ptr + i) = bytes[i]? := by
  have hpos := h.pos
  have hlen := f.write_length bytes
  have htake : (f.contents.take f.pos).length = f.pos := List.length_take_of_le f.inside
  have hplace : (b.ptr + i : ℤ) = (f.pos + i : ℕ) := by
    rw [hpos]
    push_cast
    rfl
  have hcontents : (f.write bytes).contents =
      f.contents.take f.pos ++ (bytes ++ f.contents.drop (f.pos + bytes.length)) :=
    List.append_assoc ..
  rw [hplace, hrep.byteAt (by omega), hcontents, List.getElem?_append_right (by omega), htake,
    Nat.add_sub_cancel_left, List.getElem?_append_left hi]

/-- Room that is there is taken without another block. -/
theorem SQBlob.Represents.makeRoom_within (bytes : List UInt8)
    (hfits : b.ptr + bytes.length ≤ b.allocated) :
    (if !b.canAdvance n bytes.length then
        (b.growBufOf n (sqInteger n (sqInteger n (b.ptr + bytes.length) - b.size))).map Prod.fst
      else some b) = some { b with size := ((f.write bytes).contents.length : ℤ) } := by
  obtain ⟨hptr, hle, hroom⟩ := h.bounds
  have hpos := h.pos
  have hsize := h.size
  have hbound := h.bound
  have hlength := f.write_length bytes
  rw [h.canAdvance (Int.natCast_nonneg bytes.length) (by omega)]
  by_cases hfit : b.ptr + bytes.length ≤ b.size
  · have hsame : ((f.write bytes).contents.length : ℤ) = b.size := by omega
    simp [hfit, hsame]
  · have hsum : sqInteger n (b.ptr + bytes.length) = b.ptr + bytes.length :=
      sqInteger_of_nonneg (by omega) (by omega)
    have hmore : sqInteger n (b.ptr + bytes.length - b.size) = b.ptr + bytes.length - b.size :=
      sqInteger_of_nonneg (by omega) (by omega)
    have hnew : b.size + (b.ptr + bytes.length - b.size) = (f.write bytes).contents.length := by
      omega
    have hgrown : sqInteger n (b.size + (b.ptr + bytes.length - b.size)) =
        (f.write bytes).contents.length := by
      rw [hnew]
      exact sqInteger_of_nonneg (by omega) (by omega)
    rw [hsum, hmore, SQBlob.growBufOf, hgrown, if_pos (by simp [hfit])]
    dsimp only
    rw [if_neg (by omega), Option.bind_eq_bind, Option.bind_some]
    dsimp only
    rw [hgrown]
    rfl

/-- Without another block the copy is one inside the block. -/
theorem SQBlob.Represents.writeItself_within (hfits : b.ptr + b.size ≤ b.allocated) :
    b.writeItself n = (copyWithin b.buf b.ptr 0 b.size).map fun buf =>
      ({ b with size := ((f.write f.contents).contents.length : ℤ), buf := buf,
                ptr := sqInteger n (b.ptr + b.size) }, b.size) := by
  have hsize := h.size
  have hmake := h.makeRoom_within f.contents (by omega)
  rw [← hsize] at hmake
  rw [SQBlob.writeItself]
  rw [hmake, Option.bind_eq_bind, Option.bind_some, if_neg (by simp)]
  cases copyWithin b.buf b.ptr 0 b.size <;> rfl

private theorem SQBlob.Represents.write_within (hfits : b.ptr + b.size ≤ b.allocated) :
    b.write n f.contents = (copyInto b.buf b.ptr f.contents).map fun buf =>
      ({ b with size := ((f.write f.contents).contents.length : ℤ), buf := buf,
                ptr := sqInteger n (b.ptr + b.size) }, b.size) := by
  have hsize := h.size
  have hmake := h.makeRoom_within f.contents (by omega)
  rw [SQBlob.write]
  rw [hmake, Option.bind_eq_bind, Option.bind_some, ← hsize]
  dsimp only
  cases copyInto b.buf b.ptr f.contents <;> rfl

/-- Another block is taken where there is no room, and the source is freed with the old one. -/
theorem SQBlob.Represents.writeItself_none (hfull : b.allocated < b.ptr + b.size) :
    b.writeItself n = none := by
  obtain ⟨hptr, hle, hroom⟩ := h.bounds
  have hpos := h.pos
  have hsize := h.size
  have hbound := h.bound
  have hlength := f.write_length f.contents
  by_cases hfits : f.pos + f.contents.length < 2 ^ n
  · obtain ⟨b', hmake, -, hsize', hroom', -⟩ := h.makeRoom hfits
    rw [← hsize] at hmake
    rw [SQBlob.writeItself]
    rw [hmake, Option.bind_eq_bind, Option.bind_some, if_pos ⟨by omega, by omega⟩]
  · have hwraps : 2 ^ n ≤ b.ptr + b.size := by
      rw [hpos, hsize]
      exact_mod_cast not_lt.mp hfits
    have hadv := h.canAdvance_wrapped (show b.size < 2 ^ n by omega) hwraps
    have hblock := h.block
    have hinto : copyInto b.buf b.ptr f.contents = none := if_neg (by omega)
    rw [SQBlob.writeItself]
    rw [hadv, if_neg (by simp), Option.bind_eq_bind, Option.bind_some, if_neg (by simp), copyWithin,
      h.copyFrom_contents]
    dsimp only [Option.bind_eq_bind, Option.bind_some]
    rw [hinto]
    split_ifs <;> rfl

end Writing

/-- Only the cursor moves. -/
theorem SQBlob.read_self {b b' : SQBlob} {size : ℤ} {bytes : List UInt8}
    (hread : b.read n size = some (b', bytes)) : b' = { b with ptr := b'.ptr } := by
  rw [SQBlob.read] at hread
  by_cases hnone : (!b.canAdvance n size && !decide (sqInteger n (b.size - b.ptr) > 0)) = true
  · rw [if_pos hnone] at hread
    cases hread
    rfl
  · rw [if_neg hnone] at hread
    obtain ⟨bytes', -, heq⟩ := Option.bind_eq_some_iff.mp hread
    cases heq
    rfl

section Reading

variable {b : SQBlob} {f : ByteFile} (h : b.Represents n f)

include h

private theorem SQBlob.Represents.writesBlob_itself_iff :
    WritesBlob ⟨b, f, h⟩ .itself ↔ b.ptr = 0 ∨ b.ptr = b.size ∧ 2 * b.size ≤ b.allocated := by
  obtain ⟨hptr, hle, hroom⟩ := h.bounds
  have hpos := h.pos
  have hsize := h.size
  have hbound := h.bound
  have hsource : (Source.itself : Source n).blob b = b := rfl
  by_cases hfull : b.allocated < b.ptr + b.size
  · refine iff_of_false ?_ (by omega)
    rintro ⟨d', hd', -⟩
    rw [streamWriteblob, h.writeItself_none hfull] at hd'
    cases hd'
  · have hfits : b.ptr + b.size ≤ b.allocated := not_lt.mp hfull
    constructor
    · rintro ⟨d', hd', -⟩
      by_contra hoverlap
      have hnone : copyWithin b.buf b.ptr 0 b.size = none := if_neg (by omega)
      rw [streamWriteblob, h.writeItself_within hfits, hnone] at hd'
      cases hd'
    · intro hplace
      have hcopy : copyWithin b.buf b.ptr 0 b.size = copyInto b.buf b.ptr f.contents := by
        rw [copyWithin, if_pos (by omega), h.copyFrom_contents]
        rfl
      have hend : (f.pos + f.contents.length : ℕ) < (2 : ℤ) ^ n := by omega
      have hend' : f.pos + f.contents.length < 2 ^ n := by exact_mod_cast hend
      obtain ⟨b', hb', hrep⟩ := h.write hend'
      have hitself : b.writeItself n = some (b', b.size) := by
        rw [h.writeItself_within hfits, hcopy, ← h.write_within hfits, hb', hsize]
      refine ⟨⟨b', _, hrep⟩, ?_, fun i hi => ?_⟩
      · rw [streamWriteblob, hitself]
        simp [hsource]
      · have hlt : i < f.contents.length := by
          rw [hsource, hsize] at hi
          exact_mod_cast hi
        rw [hsource, h.byteAt_written hrep hlt, h.byteAt hlt]

private theorem SQBlob.Represents.writesBlob_other_iff (s : HeldBlob n) :
    WritesBlob ⟨b, f, h⟩ (.other s) ↔ b.ptr + s.1.size < 2 ^ n := by
  obtain ⟨s, g, hs⟩ := s
  have hpos := h.pos
  have hsize := hs.size
  have hbound := hs.bound
  have hroom := hs.room
  have hsource : (Source.other (n := n) ⟨s, g, hs⟩).blob b = s := rfl
  have hlt : g.contents.length < 2 ^ n := by
    have hcast : (g.contents.length : ℤ) < 2 ^ n := by omega
    exact_mod_cast hcast
  have hiff : b.ptr + s.size < 2 ^ n ↔ f.pos + g.contents.length < 2 ^ n := by
    rw [hpos, hsize]
    exact_mod_cast Iff.rfl
  rw [hiff]
  constructor
  · rintro ⟨d', hd', -⟩
    by_contra hfits
    have hnone : b.write n g.contents = none := by
      have hop : ¬(BlobOp.write g.contents hlt).InRange f := hfits
      simpa [SQBlob.step] using h.step_none hop
    rw [streamWriteblob] at hd'
    simp only [hs.copyFrom_contents, Option.bind_eq_bind, Option.bind_some, hnone,
      Option.bind_none] at hd'
    cases hd'
  · intro hfits
    obtain ⟨b', hb', hrep⟩ := h.write hfits
    refine ⟨⟨b', _, hrep⟩, ?_, fun i hi => ?_⟩
    · rw [streamWriteblob]
      simp only [hs.copyFrom_contents, Option.bind_eq_bind, Option.bind_some, hb', hsource]
      simp [hsize]
    · have hi' : i < g.contents.length := by
        rw [hsource, hsize] at hi
        exact_mod_cast hi
      rw [hsource, h.byteAt_written hrep hi', hs.byteAt hi']

/-- A negative size passes `CanAdvance`. -/
theorem SQBlob.Represents.read_negative {size : ℤ} (hneg : size < 0) (hlow : -2 ^ n ≤ size) :
    b.read n size = none := by
  obtain ⟨hptr, hle, hroom⟩ := h.bounds
  have hbound := h.bound
  have hsum : sqInteger n (b.ptr + size) = b.ptr + size := sqInteger_eq (by omega) (by omega)
  have hadv : b.canAdvance n size = true := by
    rw [SQBlob.canAdvance, hsum, if_neg (by omega)]
  have hcopy : Blob.copyFrom b.buf b.ptr size = none := if_neg (by omega)
  simp [SQBlob.read, hadv, hcopy]

end Reading

section Readblob

variable {b : SQBlob} {f : ByteFile} {scratchpadsize : ℤ}

/-- The file of bytes that have just been read -/
def ByteFile.of (bytes : List UInt8) : ByteFile := ⟨bytes, 0, Nat.zero_le _⟩

private theorem represents_of {bytes : List UInt8} (h : bytes.length < 2 ^ n) :
    { SQBlob.create bytes.length with buf := bytes }.Represents n (.of bytes) where
  pos := rfl
  size := rfl
  room := le_rfl
  block := rfl
  contents := List.take_length
  owns := rfl
  bound := by
    change (bytes.length : ℤ) < 2 ^ n
    exact_mod_cast h

/-- Of a blob that reads, as many bytes as are asked for or left -/
theorem SQBlob.Represents.read_eq (h : b.Represents n f) {count : ℕ}
    (hfits : f.pos + count < 2 ^ n) :
    ∃ b', b.read n count = some (b', (f.read count).2) ∧
      b' = { b with ptr := b.ptr + b.available count } ∧
      ((f.read count).2.length : ℤ) = b.available count := by
  obtain ⟨b', hb', hrep⟩ := h.read hfits
  have hpos := h.pos
  have hsize := h.size
  have hinside := f.inside
  have hlen : ((f.read count).2.length : ℤ) = b.available count := by
    simp only [ByteFile.read, List.length_take, List.length_drop, SQBlob.available]
    omega
  refine ⟨b', hb', ?_, hlen⟩
  have hptr : b'.ptr = b.ptr + b.available count := by
    rw [hrep.pos, hpos, ByteFile.read, SQBlob.available]
    push_cast
    omega
  rw [← hptr]
  exact SQBlob.read_self hb'

/-- The scratch pad that is asked for a few bytes holds them. -/
theorem le_getScratchPad {size : ℤ} (hpos : 0 < size) (hsmall : size * 32 < 2 ^ n) :
    size ≤ getScratchPad n scratchpadsize size := by
  have hhalf : sqInteger n (size + size / 2) = size + size / 2 :=
    sqInteger_of_nonneg (by omega) (by omega)
  have hshift : sqInteger n (size * 32) = size * 32 := sqInteger_of_nonneg (by omega) hsmall
  rw [getScratchPad, if_pos hpos, hhalf, hshift]
  split_ifs <;> omega

/-- What `readblob` does after the read -/
theorem SQBlob.Represents.streamReadblob_eq (h : b.Represents n f) (scratchpadsize : ℤ) {size : ℤ}
    (hsize : 0 ≤ size)
    (hfits : b.ptr + min size b.size < 2 ^ n) : ∃ bytes : List UInt8,
      bytes = (f.contents.drop f.pos).take bytes.length ∧
      (bytes.length : ℤ) = b.available size ∧
      Blob.streamReadblob n b scratchpadsize size =
        let self := { b with ptr := b.ptr + b.available size }
        let pad := getScratchPad n scratchpadsize (min size b.size)
        if bytes ≠ [] ∧ pad < bytes.length then none
        else if bytes.length ≤ 0 then some ⟨self, pad, .error (.error "no data left to read")⟩
        else some ⟨self, pad, .ok { SQBlob.create bytes.length with buf := bytes }⟩ := by
  obtain ⟨hptr, hle, -⟩ := h.bounds
  have hpos := h.pos
  have hlen := h.size
  obtain ⟨count, hcount⟩ : ∃ count : ℕ, min size b.size = count :=
    ⟨(min size b.size).toNat, by omega⟩
  have hclamp : (if size > b.size then b.size else size) = (count : ℤ) := by
    split_ifs <;> omega
  have hend : (f.pos + count : ℕ) < (2 : ℤ) ^ n := by
    push_cast
    omega
  obtain ⟨b', hread, hself, hbytes⟩ := h.read_eq (show f.pos + count < 2 ^ n by exact_mod_cast hend)
  have havailable : b.available count = b.available size := by
    simp only [SQBlob.available]
    omega
  rw [havailable] at hself hbytes
  refine ⟨(f.read count).2, ?_, hbytes, ?_⟩
  · simp only [ByteFile.read, List.length_take, List.length_drop]
    congr 1
    omega
  · have hinto : copyInto (List.replicate (f.read count).2.length 0) 0 (f.read count).2 =
        some (f.read count).2 := by
      rw [copyInto, if_pos ⟨le_rfl, by simp⟩]
      simp
    rw [Blob.streamReadblob, hclamp, hread, hcount, Option.bind_eq_bind, Option.bind_some]
    dsimp only
    rw [hinto, hself]
    rfl

private theorem SQBlob.Represents.streamReadblob_none (h : b.Represents n f) {size : ℤ}
    (hlow : -2 ^ n ≤ size) (hout : ¬(0 ≤ size ∧ b.ptr + min size b.size < 2 ^ n)) :
    Blob.streamReadblob n b scratchpadsize size = none := by
  obtain ⟨hptr, hle, hroom⟩ := h.bounds
  have hpos := h.pos
  have hlen := h.size
  have hbound := h.bound
  obtain ⟨count, hcount, hread⟩ : ∃ count : ℤ, (if size > b.size then b.size else size) = count ∧
      b.read n count = none := by
    by_cases hneg : size < 0
    · exact ⟨size, if_neg (by omega), h.read_negative hneg hlow⟩
    · obtain ⟨count, hcount⟩ : ∃ count : ℕ, min size b.size = count :=
        ⟨(min size b.size).toNat, by omega⟩
      have hlt : (count : ℤ) < 2 ^ n := by omega
      have hop : ¬(BlobOp.read count (by exact_mod_cast hlt)).InRange f := by
        intro hfits
        have hend : (f.pos + count : ℕ) < (2 : ℤ) ^ n := by exact_mod_cast hfits
        push_cast at hend
        omega
      refine ⟨count, by split_ifs <;> omega, ?_⟩
      simpa [SQBlob.step] using h.step_none hop
  rw [Blob.streamReadblob, hcount, hread]
  rfl

private theorem SQBlob.Represents.readsBlob_iff (h : b.Represents n f) (size : BitVec (n + 1)) :
    ReadsBlob ⟨b, f, h⟩ scratchpadsize size ↔
      (0 ≤ size.toInt ∧ b.ptr + min size.toInt b.size < 2 ^ n) ∧
        (b.available size.toInt = 0 ∨
          b.available size.toInt ≤ getScratchPad n scratchpadsize (min size.toInt b.size)) := by
  obtain ⟨hptr, hle, hroom⟩ := h.bounds
  have hpos := h.pos
  have hsize := h.size
  have hbound := h.bound
  obtain ⟨hlow, -⟩ := (fits_iff (Nat.succ_pos n)).mp (fits_toInt size)
  by_cases hin : 0 ≤ size.toInt ∧ b.ptr + min size.toInt b.size < 2 ^ n
  · rw [and_iff_right hin]
    obtain ⟨bytes, hbytes, hlen, heq⟩ := h.streamReadblob_eq scratchpadsize hin.1 hin.2
    rw [← hlen]
    by_cases hnil : bytes = []
    · subst hnil
      rw [if_neg (by simp), if_pos (show ([] : List UInt8).length ≤ 0 from le_rfl)] at heq
      have hnone : b.available size.toInt = 0 := by simpa using hlen.symm
      refine iff_of_true ⟨_, heq, .inl ⟨"no data left to read", rfl, ?_⟩⟩ (.inl rfl)
      simp only [hnone, add_zero]
    · have hpos' : 0 < bytes.length := List.length_pos_of_ne_nil hnil
      by_cases hpad : getScratchPad n scratchpadsize (min size.toInt b.size) < bytes.length
      · refine iff_of_false ?_ (by omega)
        rintro ⟨r, hr, -⟩
        rw [heq, if_pos ⟨hnil, hpad⟩] at hr
        cases hr
      · refine iff_of_true ?_ (.inr (not_lt.mp hpad))
        rw [if_neg fun h => hpad h.2, if_neg (by omega)] at heq
        have hlt : bytes.length < 2 ^ n := by
          have hcast : (bytes.length : ℤ) < 2 ^ n := by
            rw [hlen, SQBlob.available]
            omega
          exact_mod_cast hcast
        have hrep := represents_of hlt
        refine ⟨_, heq, .inr ⟨⟨_, _, hrep⟩, rfl, hlen, fun i hi => ?_, rfl⟩⟩
        have hi' : i < bytes.length := Int.ofNat_lt.mp hi
        have hplace : (b.ptr + i : ℤ) = (f.pos + i : ℕ) := by
          rw [hpos]
          push_cast
          rfl
        have hrest : f.pos + i < f.contents.length := by
          rw [SQBlob.available] at hlen
          omega
        rw [hrep.byteAt hi', hplace, h.byteAt hrest]
        change bytes[i]? = _
        rw [hbytes, List.getElem?_take_of_lt hi', List.getElem?_drop]
  · refine iff_of_false ?_ fun hall => hin hall.1
    rintro ⟨r, hr, -⟩
    rw [h.streamReadblob_none hlow hin] at hr
    cases hr

end Readblob

/-- Which bytes of a source reach a blob -/
def Source.Fits (d : SQBlob) : Source n → Prop
  | .itself => d.ptr = 0 ∨ d.ptr = d.size ∧ 2 * d.size ≤ d.allocated
  | .other s => d.ptr + s.1.size < 2 ^ n

/-- `writeblob` writes the bytes of its source if and only if these fit; `readblob` reads what is
asked for if and only if that is not negative, no sum wraps around and the scratch pad holds it. -/
theorem blob_transfers_iff (d : HeldBlob n) :
    (∀ source : Source n, WritesBlob d source ↔ source.Fits d.1) ∧
      ∀ (scratchpadsize : ℤ) (size : BitVec (n + 1)), ReadsBlob d scratchpadsize size ↔
        (0 ≤ size.toInt ∧ d.1.ptr + min size.toInt d.1.size < 2 ^ n) ∧
          (d.1.available size.toInt = 0 ∨ d.1.available size.toInt ≤
            getScratchPad n scratchpadsize (min size.toInt d.1.size)) := by
  obtain ⟨b, f, h⟩ := d
  refine ⟨fun source => ?_, fun scratchpadsize size => h.readsBlob_iff size⟩
  cases source with
  | itself => exact h.writesBlob_itself_iff
  | other s => exact h.writesBlob_other_iff s

/-- A blob of one byte with its cursor behind it -/
def readBlob : HeldBlob 63 := ⟨⟨1, 1, 1, [7], true⟩, ⟨[7], 1, le_rfl⟩,
  ⟨rfl, rfl, le_rfl, rfl, rfl, rfl, by decide⟩⟩

/-- It is written to itself, and a negative size is read from it. -/
theorem blob_transfers_fail : ¬WritesBlob readBlob .itself ∧ ¬ReadsBlob readBlob 0 (-1) := by
  have hwrite : streamWriteblob readBlob.1 (Source.itself : Source 63) = none := by decide
  have hread : streamReadblob 63 readBlob.1 0 (-1) = none := by decide
  constructor
  · rintro ⟨d', hd', -⟩
    rw [hwrite] at hd'
    cases hd'
  · rintro ⟨r, hr, -⟩
    rw [show (-1 : BitVec (63 + 1)).toInt = -1 by decide, hread] at hr
    cases hr

end Squirt.Blob
