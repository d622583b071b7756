import Squirt.BlobIteration

/-!
# `blob.resize`

`Resize` changes the capacity of a blob, and its length only where the capacity does not hold it.
-/

namespace Squirt.Blob

variable {n : ℕ}

/-- The file of the given length -/
def ByteFile.resize (f : ByteFile) (count : ℕ) : ByteFile where
  contents := f.contents.take count ++ List.replicate (count - f.contents.length) 0
  pos := min f.pos count
  inside := by
    have := f.inside
    simp only [List.length_append, List.length_take, List.length_replicate]
    omega

theorem ByteFile.resize_length (f : ByteFile) (count : ℕ) :
    (f.resize count).contents.length = count := by
  simp only [ByteFile.resize, List.length_append, List.length_take, List.length_replicate]
  omega

def blobResize (b : SQBlob) (count : ℤ) : Option (Except Failure SQBlob) :=
  (b.resize count).map fun r => if r.2 then .ok r.1 else .error (.error "resize failed")

/-- What is asked of the blob after `resize(count)` -/
structure Resized (n : ℕ) (b b' : SQBlob) (count : ℕ) : Prop where
  len : b'.size = count
  kept : ∀ i : ℕ, i < b.size → i < count → b'.byteAt i = b.byteAt i
  zeroed : ∀ i : ℕ, b.size ≤ i → i < count → b'.byteAt i = some 0
  cursor : b'.ptr = min b.ptr count
  indexed : ∀ idx, blobGet b' idx = .error (.error "index out of range") ↔ idx < 0 ∨ count ≤ idx
  /-- The file of the length that is asked for -/
  later : ∃ f, f.contents.length = count ∧ ∀ ops : List (BlobOp n), Refines ops b' f ↔ AllInRange ops f

def ResizesTo (n : ℕ) (b : SQBlob) (count : ℕ) : Prop :=
  ∃ b', blobResize b count = some (.ok b') ∧ Resized n b b' count

section Represents

variable {b : SQBlob} {f : ByteFile} (h : b.Represents n f)

include h

/-- A place of the contents holds a byte. -/
theorem SQBlob.Represents.blobGet_outside_iff (idx : ℤ) :
    blobGet b idx = .error (.error "index out of range") ↔ idx < 0 ∨ f.contents.length ≤ idx := by
  have hsize := h.size
  by_cases hout : idx < 0 ∨ idx ≥ b.size
  · exact iff_of_true (if_pos hout) (by omega)
  · refine iff_of_false ?_ (by omega)
    obtain ⟨i, rfl⟩ : ∃ i : ℕ, idx = i := ⟨idx.toNat, by omega⟩
    obtain ⟨c, -, hget⟩ := blobGet_inside ⟨b, f, h⟩ (show (i : ℤ) < b.size by omega)
    rw [hget]
    nofun

/-- A smaller capacity cuts the contents. -/
theorem SQBlob.Represents.shrink {count : ℕ} (hle : count ≤ f.contents.length) :
    ∃ b', b.resize count = some (b', true) ∧ b'.Represents n (f.resize count) := by
  obtain ⟨hptr, hsize, hroom⟩ := h.bounds
  have hblock := h.block
  have hbound := h.bound
  have hlen := h.size
  have hpos := h.pos
  have hcontents : (f.resize count).contents = f.contents.take count := by
    simp only [ByteFile.resize, Nat.sub_eq_zero_of_le hle, List.replicate_zero, List.append_nil]
  by_cases heq : (count : ℤ) = b.allocated
  · -- there is no capacity beyond the contents, which are kept
    have hall : count = f.contents.length := by omega
    have hsame : f.resize count = f := by
      have hin := f.inside
      have htake : f.contents.take count = f.contents := List.take_of_length_le hall.ge
      have hmin : min f.pos count = f.pos := Nat.min_eq_left (hall ▸ hin)
      obtain ⟨contents, pos, inside⟩ := f
      simp only [ByteFile.resize, ByteFile.mk.injEq]
      exact ⟨by simpa only [ByteFile.resize] using hcontents.trans htake, hmin⟩
    rw [hsame]
    exact ⟨b, by simp [SQBlob.resize, h.owns, heq], h⟩
  · have hcut : (if b.size > count then (count : ℤ) else b.size) = count := by
      split_ifs <;> omega
    have hzeros : zeros (count : ℤ) = some (List.replicate count 0) := by
      rw [zeros, if_pos (by omega), Int.toNat_natCast]
    have hfrom : Blob.copyFrom b.buf 0 count = some (f.contents.take count) := by
      rw [Blob.copyFrom, if_pos ⟨le_rfl, by omega, by omega⟩, ← h.contents, List.take_take,
        Nat.min_eq_left hle]
      rfl
    have hinto : copyInto (List.replicate count 0) 0 (f.contents.take count) =
        some (f.contents.take count) := by
      have hall : (f.contents.take count).length = count := List.length_take_of_le hle
      rw [copyInto, if_pos ⟨le_rfl, by simp [hall]⟩]
      simp [hall]
    refine ⟨⟨count, count, if b.ptr > count then count else b.ptr, f.contents.take count, b.owns⟩,
      ?_, ⟨?_, ?_, le_rfl, ?_, ?_, h.owns, ?_⟩⟩
    · rw [SQBlob.resize, if_neg (by simp [h.owns]), if_pos heq, hcut]
      simp only [hzeros, hfrom, hinto, Option.bind_eq_bind, Option.bind_some]
    · simp only [ByteFile.resize]
      split_ifs <;> omega
    · rw [f.resize_length]
    · simp only [List.length_take_of_le hle]
    · rw [f.resize_length, hcontents, List.take_take, Nat.min_self]
    · change (count : ℤ) < 2 ^ n
      omega

/-- A larger capacity leaves the length as it is. -/
theorem SQBlob.Represents.resize_size {count : ℕ} (hbound : count < 2 ^ n)
    (hlt : f.contents.length < count) :
    ∃ b', b.resize count = some (b', true) ∧ b'.size = b.size := by
  have hsize := h.size
  obtain ⟨b', hb', hrep, -⟩ := h.resize (show b.size ≤ count by omega) (by exact_mod_cast hbound)
  exact ⟨b', hb', hrep.size.trans hsize.symm⟩

theorem SQBlob.Represents.resized {b' : SQBlob} {count : ℕ}
    (hrep : b'.Represents n (f.resize count)) :
    Resized n b b' count := by
  have hlen := f.resize_length count
  have hsize := h.size
  have hpos := h.pos
  refine ⟨?_, ?_, ?_, ?_, ?_, _, hlen, hrep.refines_iff_allInRange⟩
  · rw [hrep.size, hlen]
  · intro i hi hcount
    have hlt : i < f.contents.length := by omega
    rw [hrep.byteAt (hlen.symm ▸ hcount), h.byteAt hlt]
    rw [ByteFile.resize, List.getElem?_append_left (by simp; omega), List.getElem?_take_of_lt hcount]
  · intro i hi hcount
    have hge : f.contents.length ≤ i := by omega
    rw [hrep.byteAt (hlen.symm ▸ hcount)]
    rw [ByteFile.resize, List.getElem?_append_right (by simp; omega)]
    rw [List.getElem?_replicate, if_pos (by simp; omega)]
  · have hcursor : (f.resize count).pos = min f.pos count := rfl
    rw [hrep.pos, hcursor, hpos, Nat.cast_min]
  · intro idx
    rw [hrep.blobGet_outside_iff, hlen]

theorem SQBlob.Represents.resizesTo_iff {count : ℕ} (hbound : count < 2 ^ n) :
    ResizesTo n b count ↔ count ≤ f.contents.length := by
  constructor
  · rintro ⟨b', hb', hresized⟩
    by_contra hlt
    obtain ⟨c, hc, hsize⟩ := h.resize_size hbound (not_le.mp hlt)
    rw [blobResize, hc] at hb'
    obtain rfl : c = b' := by simpa using hb'
    have hlen := hresized.len
    rw [hsize, h.size] at hlen
    omega
  · intro hle
    obtain ⟨b', hb', hrep⟩ := h.shrink hle
    exact ⟨b', by rw [blobResize, hb']; rfl, h.resized hrep⟩

end Represents

/-- `resize` gives a blob the length that is asked for if and only if that is not more than it
has. -/
theorem blob_resize_iff (b : HeldBlob n) (count : Fin (2 ^ n)) :
    ResizesTo n b.1 count ↔ (count : ℤ) ≤ b.1.size := by
  obtain ⟨b, f, h⟩ := b
  rw [h.resizesTo_iff count.isLt, h.size]
  exact Int.ofNat_le.symm

/-- `blob(0).resize(1)` -/
theorem blob_resize_not_longer : ¬ResizesTo 31 (.create 0) 1 := by
  rw [(represents_create (by decide)).resizesTo_iff (by decide)]
  decide

end Squirt.Blob
