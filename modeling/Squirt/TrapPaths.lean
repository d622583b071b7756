import Squirt.StatementCode

/-!
# Control paths and traps

Where `Execute` can go from an instruction of a function, and what becomes of the traps of its
activation. A trap is listed by the position of its handler. What is tested is left open.
-/

namespace Squirt.SQCompiler

/-- An activation; traps list the last one first. -/
structure Control where
  ip : ℤ
  traps : List ℤ

/-- `ip[0]` -/
def fetch (code : List SQInstruction) (ip : ℤ) : Option SQInstruction :=
  if 0 ≤ ip then code[ip.toNat]? else none

namespace SQOpcode

/-- The next instruction can come next, with the same traps. -/
def Passes (op : SQOpcode) : Prop :=
  op.isPlain = true ∨ op ∈ [.TAILCALL, .JCMP, .JZ, .AND, .OR, .YIELD, .FOREACH, .POSTFOREACH]

/-- The offset is applied to the position after the instruction. -/
def Branches (op : SQOpcode) : Prop := op ∈ [JMP, JCMP, JZ, AND, OR, FOREACH]

/-- `Execute` can come to `exception_trap`. -/
def Raises (op : SQOpcode) : Prop := op ∉ [JMP, RETURN, PUSHTRAP, POPTRAP]

end SQOpcode

/-- One instruction of `code`. A tail call that is made and a `return` have no next state: the
code is left. -/
inductive Control.Step (code : List SQInstruction) : Control → Control → Prop
  | pass {s : Control} {i : SQInstruction} (h : fetch code s.ip = some i) (hop : i.op.Passes) :
    Step code s { s with ip := s.ip + 1 }
  | branch {s : Control} {i : SQInstruction} (h : fetch code s.ip = some i)
    (hop : i.op.Branches) : Step code s { s with ip := s.ip + 1 + i.arg1 }
  /-- there is a next element, and the container is not a generator -/
  | element {s : Control} {i : SQInstruction} (h : fetch code s.ip = some i)
    (hop : i.op = .FOREACH) : Step code s { s with ip := s.ip + 1 + 1 }
  /-- the generator is dead -/
  | dead {s : Control} {i : SQInstruction} (h : fetch code s.ip = some i)
    (hop : i.op = .POSTFOREACH) : Step code s { s with ip := s.ip + 1 + (i.arg1 - 1) }
  | pushTrap {s : Control} {i : SQInstruction} (h : fetch code s.ip = some i)
    (hop : i.op = .PUSHTRAP) : Step code s ⟨s.ip + 1, (s.ip + 1 + i.arg1) :: s.traps⟩
  | popTrap {s : Control} {i : SQInstruction} (h : fetch code s.ip = some i)
    (hop : i.op = .POPTRAP) : Step code s ⟨s.ip + 1, s.traps.drop i.arg0.toNat⟩
  /-- `exception_trap` with a trap of this activation -/
  | handle {s : Control} {i : SQInstruction} {trap : ℤ} {traps : List ℤ}
    (h : fetch code s.ip = some i) (hop : i.op.Raises) (htraps : s.traps = trap :: traps) :
    Step code s ⟨trap, traps⟩

/-- The states of an activation. -/
inductive Control.Reachable (code : List SQInstruction) : Control → Prop
  | start : Reachable code ⟨0, []⟩
  | step {s s' : Control} (h : Reachable code s) (hstep : Step code s s') : Reachable code s'

/-- On every path there are as many traps as there are bodies of `try` around. -/
structure Balanced (code : List SQInstruction) (notes : List Note) : Prop where
  statement : ∀ s, Control.Reachable code s → ∀ pos tries, .statement pos tries ∈ notes →
    s.ip = pos → s.traps.length = tries
  jump : ∀ s s', Control.Reachable code s → Control.Step code s s' →
    ∀ pos tries, .jump pos tries ∈ notes → s.ip = pos → s'.traps.length = tries
  pop : ∀ s i, Control.Reachable code s → fetch code s.ip = some i → i.op = .POPTRAP →
    i.arg0.toNat ≤ s.traps.length
  return_ : ∀ s i, Control.Reachable code s → fetch code s.ip = some i → i.op = .RETURN →
    s.traps = []

/-- The traps at each position of the code and after it, by the positions of their `PUSHTRAP`. -/
abbrev Tags := List (List ℕ)

namespace Tags

variable (tags : Tags)

/-- There are the traps `T` at `pos`. -/
def At (pos : ℤ) (T : List ℕ) : Prop := ∃ m : ℕ, pos = m ∧ tags[m]? = some T

/-- The traps `T` at instruction `n` agree with those at the next one. -/
def Falls (n : ℕ) (i : SQInstruction) (T : List ℕ) : Prop :=
  match i.op with
  | .JMP | .THROW => True
  | .RETURN => T = []
  | .TAILCALL => T = [] ∧ tags[n + 1]? = some T
  | .PUSHTRAP => tags[n + 1]? = some (n :: T)
  | .POPTRAP => i.arg0.toNat ≤ T.length ∧ tags[n + 1]? = some (T.drop i.arg0.toNat)
  | _ => tags[n + 1]? = some T

/-- They agree with those at the target of a jump. -/
def Jumps (n : ℕ) (i : SQInstruction) (T : List ℕ) : Prop :=
  match i.op with
  | .JMP | .JZ | .JCMP | .AND | .OR | .PUSHTRAP => tags.At (n + 1 + i.arg1) T
  | .FOREACH => tags[n + 2]? = some T ∧ tags.At (n + 1 + i.arg1) T
  | .POSTFOREACH => tags.At (n + i.arg1) T
  | _ => True

/-- What is noted is so. -/
def Noted : Note → Prop
  | .statement pos tries => ∃ T, tags.At pos T ∧ T.length = tries
  | .jump pos tries => ∃ T, tags.At pos T ∧ T.length = tries
  | .increment _ _ _ => True

end Tags

/-- The jumps at the positions of `pending` have no target yet. -/
structure Typed (code : List SQInstruction) (tags : Tags) (pending : List ℤ) : Prop where
  length : tags.length = code.length + 1
  first : tags[0]? = some []
  falls : ∀ n i T, code[n]? = some i → tags[n]? = some T → tags.Falls n i T
  jumps : ∀ (n : ℕ) i T, code[n]? = some i → tags[n]? = some T → (n : ℤ) ∉ pending →
    tags.Jumps n i T
  stack : ∀ m T, m :: T ∈ tags → tags[m]? = some T ∧ ∃ i, code[m]? = some i ∧ i.op = .PUSHTRAP

section Paths

variable {code : List SQInstruction} {tags : Tags} {notes : List Note} {i : SQInstruction}
  {s s' : Control} {T : List ℕ}

theorem fetch_eq_some {ip : ℤ} (h : fetch code ip = some i) :
    ∃ n : ℕ, ip = n ∧ code[n]? = some i := by
  unfold fetch at h
  split at h
  · exact ⟨ip.toNat, by omega, h⟩
  · cases h

/-- The handler of the trap that the `PUSHTRAP` at `m` pushes. -/
def handler (code : List SQInstruction) (m : ℕ) : ℤ :=
  match code[m]? with
  | some i => m + 1 + i.arg1
  | none => 0

/-- The activation is at a position with its traps. -/
structure Control.Fits (code : List SQInstruction) (tags : Tags) (s : Control) : Prop where
  fits : ∃ T, tags.At s.ip T ∧ s.traps = T.map (handler code)

theorem Tags.At.unique {ip : ℤ} {T' : List ℕ} (h : tags.At ip T) (h' : tags.At ip T') :
    T = T' := by
  obtain ⟨m, hm, ht⟩ := h
  obtain ⟨m', hm', ht'⟩ := h'
  obtain rfl : m = m' := by omega
  rw [ht] at ht'
  exact Option.some.inj ht'

private theorem Typed.falls_passes (h : Typed code tags []) {n : ℕ} (hi : code[n]? = some i)
    (hT : tags[n]? = some T) (hop : i.op.Passes) : tags[n + 1]? = some T := by
  have hfalls := h.falls n i T hi hT
  unfold Tags.Falls at hfalls
  revert hop hfalls
  rcases i with ⟨op, -, -, -, -, -⟩
  cases op <;> simp [SQOpcode.Passes, SQOpcode.isPlain]

private theorem Typed.jumps_branches (h : Typed code tags []) {n : ℕ} (hi : code[n]? = some i)
    (hT : tags[n]? = some T) (hop : i.op.Branches) : tags.At (n + 1 + i.arg1) T := by
  have hjumps := h.jumps n i T hi hT (by simp)
  unfold Tags.Jumps at hjumps
  revert hop hjumps
  rcases i with ⟨op, -, -, -, -, -⟩
  cases op <;> simp [SQOpcode.Branches]

/-- The code and its traps stay in step. -/
theorem Typed.step (h : Typed code tags []) (hs : s.Fits code tags)
    (hstep : Control.Step code s s') : s'.Fits code tags := by
  obtain ⟨T, ⟨m, hm, hT⟩, htraps⟩ := hs.fits
  have hfetch : ∀ {i}, fetch code s.ip = some i → code[m]? = some i := by
    intro i hi
    obtain ⟨n, hn, hcode⟩ := fetch_eq_some hi
    obtain rfl : m = n := by omega
    exact hcode
  cases hstep with
  | pass hi hop =>
    exact ⟨T, ⟨m + 1, by simp [hm], h.falls_passes (hfetch hi) hT hop⟩, htraps⟩
  | branch hi hop =>
    exact ⟨T, by simpa [hm] using h.jumps_branches (hfetch hi) hT hop, htraps⟩
  | @element i hi hop =>
    have hjumps := h.jumps m i T (hfetch hi) hT (by simp)
    simp only [Tags.Jumps, hop] at hjumps
    exact ⟨T, ⟨m + 2, by simp [hm]; omega, hjumps.1⟩, htraps⟩
  | @dead i hi hop =>
    have hjumps := h.jumps m i T (hfetch hi) hT (by simp)
    simp only [Tags.Jumps, hop] at hjumps
    have hip : s.ip + 1 + (i.arg1 - 1) = m + i.arg1 := by omega
    exact ⟨T, hip ▸ hjumps, htraps⟩
  | @pushTrap i hi hop =>
    have hfalls := h.falls m i T (hfetch hi) hT
    simp only [Tags.Falls, hop] at hfalls
    refine ⟨m :: T, ⟨m + 1, by simp [hm], hfalls⟩, ?_⟩
    simp [handler, hfetch hi, htraps, hm]
  | @popTrap i hi hop =>
    have hfalls := h.falls m i T (hfetch hi) hT
    simp only [Tags.Falls, hop] at hfalls
    exact ⟨T.drop i.arg0.toNat, ⟨m + 1, by simp [hm], hfalls.2⟩, by simp [htraps]⟩
  | handle hi hop hcons =>
    rw [htraps] at hcons
    obtain ⟨p, T', rfl, rfl, rfl⟩ := List.map_eq_cons_iff.mp hcons
    obtain ⟨hp, i, hcode, hpush⟩ := h.stack p T' (List.mem_of_getElem? hT)
    have hjumps := h.jumps p i T' hcode hp (by simp)
    simp only [Tags.Jumps, hpush] at hjumps
    exact ⟨T', by simpa [handler, hcode] using hjumps, rfl⟩

theorem Typed.reachable (h : Typed code tags []) (hs : Control.Reachable code s) :
    s.Fits code tags := by
  induction hs with
  | start => exact ⟨[], ⟨0, rfl, h.first⟩, rfl⟩
  | step _ hstep ih => exact h.step ih hstep

/-- A jump does nothing to the traps. -/
theorem Control.Step.jmp_traps (hstep : Control.Step code s s') (hi : fetch code s.ip = some i)
    (hop : i.op = .JMP) : s'.traps = s.traps := by
  cases hstep with
  | pass | branch | element | dead => rfl
  | pushTrap h hop' =>
    rw [hi] at h
    cases h
    rw [hop] at hop'
    cases hop'
  | popTrap h hop' =>
    rw [hi] at h
    cases h
    rw [hop] at hop'
    cases hop'
  | handle h hop' =>
    rw [hi] at h
    cases h
    rw [hop] at hop'
    exact absurd (by simp) hop'

/-- What is noted of a jump is noted of a `JMP`. -/
def JumpsNoted (code : List SQInstruction) (notes : List Note) : Prop :=
  ∀ pos tries, .jump pos tries ∈ notes → ∃ i, fetch code pos = some i ∧ i.op = .JMP

/-- Typed code is balanced. -/
theorem Typed.paths_balanced (h : Typed code tags []) (hnotes : ∀ note ∈ notes, tags.Noted note)
    (hjumps : JumpsNoted code notes) : Balanced code notes := by
  refine ⟨fun s hs pos tries hnote hip => ?_, fun s s' hs hstep pos tries hnote hip => ?_,
    fun s i hs hi hop => ?_, fun s i hs hi hop => ?_⟩
  all_goals obtain ⟨T, hT, htraps⟩ := (h.reachable hs).fits
  · obtain ⟨T', hT', hlen⟩ := hnotes _ hnote
    obtain rfl := (hip ▸ hT).unique hT'
    rw [htraps, List.length_map, hlen]
  · obtain ⟨T', hT', hlen⟩ := hnotes _ hnote
    obtain ⟨i, hi, hop⟩ := hjumps pos tries hnote
    obtain rfl := (hip ▸ hT).unique hT'
    rw [hstep.jmp_traps (hip ▸ hi) hop, htraps, List.length_map, hlen]
  · obtain ⟨n, hn, hcode⟩ := fetch_eq_some hi
    obtain ⟨m, hm, hTm⟩ := hT
    obtain rfl : n = m := by omega
    have hfalls := h.falls n i T hcode hTm
    simp only [Tags.Falls, hop] at hfalls
    rw [htraps, List.length_map]
    exact hfalls.1
  · obtain ⟨n, hn, hcode⟩ := fetch_eq_some hi
    obtain ⟨m, hm, hTm⟩ := hT
    obtain rfl : n = m := by omega
    have hfalls := h.falls n i T hcode hTm
    simp only [Tags.Falls, hop] at hfalls
    rw [htraps, hfalls, List.map_nil]

end Paths

end Squirt.SQCompiler
