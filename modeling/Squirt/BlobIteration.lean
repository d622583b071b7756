import Squirt.BlobFile
import Squirt.Programs

/-!
# `foreach` over a blob

`FOREACH_OP` on an instance calls `_nexti` for the next place and indexes the instance with it;
`_blob__nexti` and `_blob__get` each look at the length of the blob.
-/

namespace Squirt.Blob

open Programs Program

/-- A blob as its operations leave it -/
abbrev HeldBlob (n : ℕ) := {b : SQBlob // ∃ f, b.Represents n f}

/-- The byte of the block at a place -/
def SQBlob.byteAt (b : SQBlob) (idx : ℤ) : Option UInt8 := if idx < 0 then none else b.buf[idx.toNat]?

/-- What `_nexti` takes and returns -/
inductive Iterator
  | null
  | integer (i : ℤ)
  | other
  deriving DecidableEq

inductive Failure
  | error (message : String)
  | outside
  deriving DecidableEq

section Model

variable (n : ℕ) {W : Type} (blob : W → SQBlob) (body : ℤ → ℤ → W → W)

def blobGet (b : SQBlob) (idx : ℤ) : Except Failure ℤ :=
  if idx < 0 ∨ idx ≥ b.size then .error (.error "index out of range")
  else match b.byteAt idx with
    | some c => .ok c.toNat
    | none => .error .outside

def blobNexti (b : SQBlob) : Iterator → Except Failure Iterator
  | .null => .ok (.integer 0)
  | .integer idx =>
    if sqInteger n (idx + 1) < b.size then .ok (.integer (sqInteger n (idx + 1))) else .ok .null
  | .other => .error (.error "internal error (_nexti) wrong argument type")

/-- A loop that runs: the iterator `o4`, and what the body was executed with, each time with the
world it was started in -/
structure Loop (W : Type) where
  world : W
  o4 : Iterator
  executed : List (ℤ × ℤ × W)

abbrev LoopProgram (W α : Type) := Program (Loop W) Failure α

/-- `Get`, which falls back to `_get` -/
def getAt (b : SQBlob) : Iterator → Except Failure ℤ
  | .integer idx => blobGet b idx
  | .null | .other => .error (.error "wrong type of parameter")

/-- The index and the value for the body, unless the loop is left -/
def foreachOp : LoopProgram W (Option (ℤ × ℤ)) := do
  let s ← get
  match blobNexti n (blob s.world) s.o4 with
  | .error e => raise e
  | .ok itr =>
    modify fun s => { s with o4 := itr }
    match itr with
    | .null => pure none
    | .integer idx =>
      match getAt (blob s.world) itr with
      | .ok c => pure (some (idx, c))
      | .error .outside => raise .outside
      | .error (.error _) => raise (.error "_nexti returned an invalid idx")
    | .other => raise (.error "_nexti returned an invalid idx")

def round : LoopProgram W (Option Unit) := do
  match ← foreachOp n blob with
  | none => pure (some ())
  | some (i, c) =>
    modify fun s =>
      { s with world := body i c s.world, executed := s.executed ++ [(i, c, s.world)] }
    pure none

/-- `foreach (i, c in blob) body` -/
def foreachBlob (fuel : ℕ) : LoopProgram W Unit := repeatUntil (round n blob body) fuel

end Model

variable {n : ℕ} {W : Type}

/-- A body that does not resize the blob -/
structure LoopBody (blob : W → HeldBlob n) where
  run : ℤ → ℤ → W → W
  keepsSize : ∀ i c w, (blob (run i c w)).1.size = (blob w).1.size

def Loop.start (w : W) : Loop W := ⟨w, .null, []⟩

variable (blob : W → HeldBlob n) (body : LoopBody blob) (w : W)

/-- From `w`, the body has been executed for the first `count` bytes in turn. -/
structure Loop.Iterated (count : ℕ) (s : Loop W) : Prop where
  indices : s.executed.map (fun e => e.1) = (List.range count).map fun i : ℕ => (i : ℤ)
  bytes : ∀ e ∈ s.executed, ∃ c, (blob e.2.2).1.byteAt e.1 = some c ∧ e.2.1 = c.toNat
  world : s.world = s.executed.foldl (fun w e => body.run e.1 e.2.1 w) w

/-- The loop ends without an error after as many executions of its body. -/
def IteratesOver (count : ℕ) : Prop :=
  ∃ fuel, Yields (.start w) (foreachBlob n (fun w => (blob w).1) body.run fuel) fun _ s =>
    s.Iterated blob body w count

/-- The place `_nexti` gets for the next one -/
def placeBefore : ℕ → Iterator
  | 0 => .null
  | i + 1 => .integer i

private theorem HeldBlob.size_nonneg (b : HeldBlob n) : 0 ≤ b.1.size := by
  obtain ⟨f, h⟩ := b.2
  have := h.size
  omega

theorem SQBlob.Represents.byteAt {b : SQBlob} {f : ByteFile} (h : b.Represents n f) {i : ℕ}
    (hi : i < f.contents.length) : b.byteAt i = f.contents[i]? := by
  rw [SQBlob.byteAt, if_neg (by omega), Int.toNat_natCast, ← h.contents, List.getElem?_take_of_lt hi]

section Places

variable (b : HeldBlob n) {i : ℕ}

private theorem blobNexti_inside (h : i < b.1.size) :
    blobNexti n b.1 (placeBefore i) = .ok (.integer i) := by
  cases i with
  | zero => rfl
  | succ i =>
    obtain ⟨f, hf⟩ := b.2
    have hroom := hf.room
    have hbound := hf.bound
    have hnext : sqInteger n ((i : ℤ) + 1) = i + 1 := sqInteger_of_nonneg (by omega) (by omega)
    simp only [placeBefore, blobNexti, hnext]
    rw [if_pos (by omega)]
    rfl

private theorem blobNexti_last (h : b.1.size = i) (hpos : i ≠ 0) :
    blobNexti n b.1 (placeBefore i) = .ok .null := by
  cases i with
  | zero => contradiction
  | succ i =>
    obtain ⟨f, hf⟩ := b.2
    have hroom := hf.room
    have hbound := hf.bound
    have hnext : sqInteger n ((i : ℤ) + 1) = i + 1 := sqInteger_of_nonneg (by omega) (by omega)
    simp only [placeBefore, blobNexti, hnext]
    exact if_neg (by omega)

theorem blobGet_inside (h : i < b.1.size) :
    ∃ c, b.1.byteAt i = some c ∧ blobGet b.1 i = .ok c.toNat := by
  obtain ⟨f, hf⟩ := b.2
  have hsize := hf.size
  have hlt : i < f.contents.length := by omega
  have hbyte : b.1.byteAt i = some f.contents[i] := by
    rw [hf.byteAt hlt, List.getElem?_eq_getElem hlt]
  refine ⟨_, hbyte, ?_⟩
  rw [blobGet, if_neg (by omega), hbyte]

private theorem blobGet_outside (h : b.1.size ≤ i) :
    blobGet b.1 i = .error (.error "index out of range") :=
  if_pos (.inr h)

end Places

/-- Before the execution for the byte `i` -/
structure Loop.Reached (i : ℕ) (s : Loop W) : Prop extends s.Iterated blob body w i where
  place : s.o4 = placeBefore i
  size : (blob s.world).1.size = (blob w).1.size

variable {blob body w} {s : Loop W} {i : ℕ}

theorem Loop.reached_start : (Loop.start w).Reached blob body w 0 where
  indices := rfl
  bytes := nofun
  world := rfl
  place := rfl
  size := rfl

/-- The loop executes its body for a byte that there is. -/
theorem Loop.Reached.next (h : s.Reached blob body w i) (hlt : i < (blob w).1.size) :
    Yields s (round n (fun w => (blob w).1) body.run) fun res s' =>
      res = none ∧ s'.Reached blob body w (i + 1) := by
  have hlt' : i < (blob s.world).1.size := h.size ▸ hlt
  obtain ⟨c, hbyte, hget⟩ := blobGet_inside (blob s.world) hlt'
  have hop : foreachOp n (fun w => (blob w).1) s =
      .ok (some ((i : ℤ), (c.toNat : ℤ))) { s with o4 := .integer i } := by
    have hnext := blobNexti_inside (blob s.world) hlt'
    rw [← h.place] at hnext
    refine (bind_ok rfl).trans ?_
    rw [hnext]
    refine (bind_ok rfl).trans ?_
    simp only [getAt, hget]
    rfl
  refine ⟨none, _, (bind_ok hop).trans (bind_ok rfl), rfl, ?_⟩
  refine ⟨⟨?_, ?_, ?_⟩, rfl, ?_⟩
  · simp only [List.map_append, h.indices, List.map_cons, List.map_nil, List.range_succ]
  · intro e he
    rcases List.mem_append.mp he with he | he
    · exact h.bytes e he
    · obtain rfl := List.mem_singleton.mp he
      exact ⟨c, hbyte, rfl⟩
  · simp only [List.foldl_append, ← h.world, List.foldl_cons, List.foldl_nil]
  · exact (body.keepsSize i c.toNat s.world).trans h.size

/-- Behind the last byte it ends. -/
theorem Loop.Reached.last (h : s.Reached blob body w i) (hsize : (blob w).1.size = i)
    (hpos : i ≠ 0) : Yields s (round n (fun w => (blob w).1) body.run) fun res s' =>
      ∃ a, res = some a ∧ s'.Iterated blob body w i := by
  have hop : foreachOp n (fun w => (blob w).1) s = .ok none { s with o4 := .null } := by
    have hnext := blobNexti_last (blob s.world) (h.size.trans hsize) hpos
    rw [← h.place] at hnext
    refine (bind_ok rfl).trans ?_
    rw [hnext]
    exact bind_ok rfl
  exact ⟨some (), _, bind_ok hop, (), rfl, h.indices, h.bytes, h.world⟩

/-- With no byte at all, `_nexti` still gives a first place. -/
theorem Loop.Reached.empty (h : s.Reached blob body w 0) (hsize : (blob w).1.size = 0) :
    ∃ s', round n (fun w => (blob w).1) body.run s =
      .error (.raised (.error "_nexti returned an invalid idx")) s' := by
  have hget : blobGet (blob s.world).1 0 = .error (.error "index out of range") :=
    blobGet_outside (i := 0) (blob s.world) (h.size.trans hsize).le
  have hop : foreachOp n (fun w => (blob w).1) s =
      .error (.raised (.error "_nexti returned an invalid idx")) { s with o4 := .integer 0 } := by
    refine (bind_ok rfl).trans ?_
    rw [h.place]
    refine (bind_ok rfl).trans ?_
    simp only [getAt, hget]
    rfl
  exact ⟨_, bind_error hop⟩

theorem Loop.Reached.run (h : s.Reached blob body w i) {rest : ℕ}
    (hsize : (blob w).1.size = (i + rest : ℕ)) (hpos : i + rest ≠ 0) :
    Yields s (foreachBlob n (fun w => (blob w).1) body.run (rest + 1)) fun _ s' =>
      s'.Iterated blob body w (i + rest) := by
  induction rest generalizing i s with
  | zero => exact (h.last hsize hpos).done
  | succ rest ih =>
    refine Yields.again ((h.next (by omega)).mono fun res s' hs' => ⟨hs'.1, ?_⟩)
    have hsum : i + (rest + 1) = i + 1 + rest := by omega
    rw [hsum] at hsize hpos ⊢
    exact ih hs'.2 hsize hpos

/-- A loop over a blob that has no byte ends in an error. -/
theorem not_iteratesOver_zero (hsize : (blob w).1.size = 0) (count : ℕ) :
    ¬IteratesOver blob body w count := by
  rintro ⟨fuel, a, s, hrun, -⟩
  cases fuel with
  | zero => cases hrun
  | succ fuel =>
    have hstart : (Loop.start w).Reached blob body w 0 := Loop.reached_start
    obtain ⟨s', herror⟩ := hstart.empty hsize
    rw [foreachBlob, repeatUntil_error herror] at hrun
    cases hrun

/-- A loop over a blob that its body does not resize executes the body once for each byte if and
only if there is a byte. -/
theorem foreach_iteratesOver_iff (blob : W → HeldBlob n) (body : LoopBody blob) (w : W) :
    IteratesOver blob body w (blob w).1.size.toNat ↔ (blob w).1.size ≠ 0 := by
  constructor
  · intro h hzero
    exact not_iteratesOver_zero hzero _ h
  · intro hpos
    have hsize : (blob w).1.size = (0 + (blob w).1.size.toNat : ℕ) := by
      have := (blob w).size_nonneg
      omega
    have hstart : (Loop.start w).Reached blob body w 0 := Loop.reached_start
    have hrun := hstart.run hsize (by omega)
    rw [Nat.zero_add] at hrun
    exact ⟨_, hrun⟩

/-- `foreach (i, b in blob(0)) {}` -/
theorem foreach_empty_not_iterates :
    ¬IteratesOver (n := 31) (W := Unit) (fun _ => ⟨.create 0, _, represents_create (by decide)⟩)
      ⟨fun _ _ w => w, fun _ _ _ => rfl⟩ () 0 :=
  not_iteratesOver_zero rfl 0

end Squirt.Blob
