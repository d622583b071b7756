import Squirt.FuncState
import Squirt.GuardedRuns
import Squirt.RegisterOperands
import Squirt.StatementCode

/-!
# How many registers a function gets

The registers that `SQFuncState` gives out over any sequence of what the compiler asks of it, and
which of them fit into the instructions.
-/

namespace Squirt.SQCompiler

open GuardedRuns

/-- `SQFuncState` with its `_stacksize`. Not in the source: `given` are the registers the compiler
has got so far, 0 for the `this` of every function among them, and `cut` the instructions it has
taken out of the code. -/
structure Allocator where
  fs : SQFuncState
  stacksize : ℕ
  given : List ℕ
  cut : List SQInstruction

/-- What the compiler asks of `SQFuncState` where registers are concerned. -/
inductive Request
  /-- `PushTarget()` -/
  | pushTarget
  /-- `PushTarget(n)` -/
  | pushTargetAt (n : ℕ)
  | popTarget
  | discardTarget
  /-- `PushLocalVariable`, in `AddParameter` too -/
  | pushLocalVariable
  | markLocalAsOuter (pos : ℕ)
  | setStackSize (n : ℕ)
  | snoozeOpt
  | setReturnExp (retexp : ℤ)
  | add (site : Site)
  /-- `PopInstructions` -/
  | popInstructions (size : ℕ)
  /-- `AddInstruction(exp[i])` -/
  | addAgain (i : SQInstruction)
  /-- `SetIntructionParam(pos, 1, val)` -/
  | setArg1 (pos val : ℤ)
  /-- `SetIntructionParams(pos, 0, offset, 0)` -/
  | setJump (pos offset : ℤ)
  /-- `SetIntructionParam(trappos, 0, ex_target)` -/
  | setTrap (trappos : ℤ) (ex_target : ℕ)

/-- `arg1` holds no register. -/
def SQInstruction.IsPatched (i : SQInstruction) : Prop :=
  i.op ∈ [.JZ, .JCMP, .JMP, .AND, .OR, .FOREACH, .POSTFOREACH, .PUSHTRAP] ∨
    i.op = .NEWOBJ ∧ i.arg3 ≠ 2

instance (i : SQInstruction) : Decidable i.IsPatched := inferInstanceAs (Decidable (_ ∨ _))

namespace Allocator

variable (a : Allocator)

def create (fusion lineinfo parent : Bool) : Allocator where
  fs := .create fusion lineinfo parent 0
  stacksize := 0
  given := [0]
  cut := []

def allocStackPos : Except String (ℕ × Allocator) :=
  let npos := a.fs.vlocals.length
  let a := { a with fs := { a.fs with vlocals := a.fs.vlocals ++ [⟨false, false⟩] } }
  if a.fs.vlocals.length > a.stacksize then
    if a.stacksize > MAX_FUNC_STACKSIZE then .error "internal compiler error: too many locals"
    else .ok (npos, { a with stacksize := a.fs.vlocals.length })
  else .ok (npos, a)

def pushTarget : Except String Allocator := do
  let (n, a) ← a.allocStackPos
  return { a with fs := a.fs.pushTarget (some n), given := n :: a.given }

def pushLocalVariable : Allocator :=
  let pos := a.fs.vlocals.length
  { a with
    fs := a.fs.pushLocalVariable
    stacksize := max a.stacksize (a.fs.vlocals.length + 1)
    given := pos :: a.given }

def popInstructions (size : ℕ) : Allocator :=
  { a with
    fs := a.fs.popInstructions size
    cut := a.fs.instructions.drop (a.fs.instructions.length - size) ++ a.cut }

def step : Request → Except String Allocator
  | .pushTarget => a.pushTarget
  | .pushTargetAt n => .ok { a with fs := a.fs.pushTarget (some n) }
  | .popTarget => .ok { a with fs := a.fs.popTarget }
  | .discardTarget => .ok { a with fs := a.fs.discardTarget }
  | .pushLocalVariable => .ok a.pushLocalVariable
  | .markLocalAsOuter pos => .ok { a with fs := a.fs.markLocalAsOuter pos }
  | .setStackSize n => .ok { a with fs := a.fs.setStackSize n }
  | .snoozeOpt => .ok { a with fs := a.fs.snoozeOpt }
  | .setReturnExp retexp => .ok { a with fs := { a.fs with returnexp := retexp } }
  | .add site => .ok { a with fs := a.fs.addInstruction site.instruction }
  | .popInstructions size => .ok (a.popInstructions size)
  | .addAgain i => .ok { a with fs := a.fs.addInstruction i }
  | .setArg1 pos val => .ok { a with fs := a.fs.setArg1 pos val }
  | .setJump pos offset => .ok { a with fs := a.fs.setIntructionParams pos 0 offset }
  | .setTrap trappos ex_target => .ok { a with fs := a.fs.setArg0 trappos ex_target }

/-- The step, if it is not rejected. -/
def next (a : Allocator) (r : Request) : Option Allocator := (a.step r).toOption

/-- What the compiler can ask for: its registers are ones it has got, and the positions it fills
in are those of the instructions it added for that. -/
def Allows (a : Allocator) : Request → Prop
  | .pushTargetAt n => n ∈ a.given
  | .popTarget | .discardTarget => a.fs.targetstack ≠ [] ∧ a.fs.topTarget < a.fs.vlocals.length
  | .add site => ∀ r ∈ site.registers, r ∈ a.given
  | .addAgain i => i ∈ a.cut
  | .setArg1 pos _ => 0 ≤ pos → ∀ i ∈ a.fs.instructions[pos.toNat]?, i.IsPatched
  | .setJump pos _ => 0 ≤ pos → ∀ i ∈ a.fs.instructions[pos.toNat]?, i.op = .JMP
  | .setTrap trappos ex_target =>
    (0 ≤ trappos → ∀ i ∈ a.fs.instructions[trappos.toNat]?, i.op = .PUSHTRAP) ∧ ex_target ∈ a.given
  | _ => True

instance (a : Allocator) : (r : Request) → Decidable (a.Allows r)
  | .pushTargetAt n => inferInstanceAs (Decidable (n ∈ a.given))
  | .popTarget | .discardTarget => inferInstanceAs (Decidable (_ ∧ _))
  | .add site => inferInstanceAs (Decidable (∀ r ∈ site.registers, r ∈ a.given))
  | .addAgain i => inferInstanceAs (Decidable (i ∈ a.cut))
  | .setArg1 pos _ => inferInstanceAs
    (Decidable (0 ≤ pos → ∀ i ∈ a.fs.instructions[pos.toNat]?, i.IsPatched))
  | .setJump pos _ => inferInstanceAs
    (Decidable (0 ≤ pos → ∀ i ∈ a.fs.instructions[pos.toNat]?, i.op = .JMP))
  | .setTrap _ _ => inferInstanceAs (Decidable (_ ∧ _))
  | .pushTarget | .pushLocalVariable | .markLocalAsOuter _ | .setStackSize _ | .snoozeOpt
  | .setReturnExp _ | .popInstructions _ => .isTrue trivial

/-- `AddInstruction` takes the condition away from a `_OP_JZ` on register 0. -/
def Blanks (a : Allocator) (i : SQInstruction) : Prop :=
  a.fs.fusion = true ∧ a.fs.optimization = true ∧
    ∃ pi ∈ a.fs.instructions.getLast?, BlanksCondition pi i

/-- The last instruction is a call whose target is negative as `sarg0`. -/
def EndsFar (a : Allocator) : Prop := ∃ i ∈ a.fs.instructions.getLast?, i.IsFarCall

/-- `DiscardTarget` takes its target away from the call before it. -/
def DiscardsCall (a : Allocator) : Prop :=
  a.fs.fusion = true ∧ a.fs.optimization = true ∧
    ∃ i ∈ a.fs.instructions.getLast?, i.op = .CALL ∧ i.arg0.toNat = a.fs.topTarget

/-- Fewer than 255 slots are in use whenever a slot is taken without a check, `AddInstruction`
is not asked for a `_OP_JZ` on register 0 that it takes for a `_OP_SET`, a call with a target from
128 on is discarded at once, and attributes are in the register below their key. -/
def WithinLimit (a : Allocator) : Request → Prop
  | .pushTarget => a.fs.vlocals.length < MAX_FUNC_STACKSIZE ∧ ¬a.EndsFar ∨
    MAX_FUNC_STACKSIZE < a.stacksize ∧ a.stacksize ≤ a.fs.vlocals.length
  | .pushLocalVariable => a.fs.vlocals.length < MAX_FUNC_STACKSIZE ∧ ¬a.EndsFar
  | .discardTarget => a.EndsFar → a.DiscardsCall
  | .add site => ¬a.Blanks site.instruction ∧ ¬a.EndsFar ∧ site.AttributesBelow
  | .addAgain i => ¬a.Blanks i ∧ ¬a.EndsFar
  | _ => ¬a.EndsFar

/-- `Execute` will use the registers that the compiler means; what becomes of a call with a far
target depends on the next request. -/
def Exact : Request → Prop
  | .add site => site.instruction.registers = site.registers.map (fun n : ℕ => (n : ℤ)) ∨
    site.instruction.IsFarCall
  | _ => True

/-- `AddInstruction` of a new instruction -/
def IsAdd : Request → Prop
  | .add _ => True
  | _ => False

/-- The registers in the code are in range, also in what is cut out of it; a call with a far target
may be the last instruction just after it was added. -/
def CodeInRange (r : Request) (a' : Allocator) : Prop :=
  (∀ i ∈ a'.cut, i.InRange) ∧ ∀ n i, a'.fs.instructions[n]? = some i →
    i.InRange ∨ (n + 1 = a'.fs.instructions.length ∧ IsAdd r ∧ i.IsFarCall) ∧ i.OperandsInRange

/-- The registers are encoded without loss, and what needs a register that cannot be is
rejected. -/
def Encodes (a : Allocator) (r : Request) : Prop :=
  match a.step r with
  | .ok a' => (∀ n ∈ a'.given, n < MAX_FUNC_STACKSIZE) ∧ CodeInRange r a' ∧ Exact r
  | .error e => e = "internal compiler error: too many locals" ∧
    MAX_FUNC_STACKSIZE ≤ a.fs.vlocals.length

/-- What holds between requests that were encoded. -/
structure Encoded (a : Allocator) : Prop where
  given : ∀ n ∈ a.given, n < MAX_FUNC_STACKSIZE
  code : ∀ i ∈ a.fs.instructions, i.OperandsInRange
  cut : ∀ i ∈ a.cut, i.OperandsInRange
  cutNear : ∀ i ∈ a.cut, ¬i.IsStray
  settled : ∀ n i, a.fs.instructions[n]? = some i → i.IsStray →
    n + 1 = a.fs.instructions.length ∧ i.IsFarCall

section Steps

variable {a a' : Allocator} {r : Request}

private theorem encoded_create (fusion lineinfo parent : Bool) :
    Encoded (create fusion lineinfo parent) where
  given := by simp [create, MAX_FUNC_STACKSIZE]
  code := by simp [create, SQFuncState.create]
  cut := by simp [create]
  cutNear := by simp [create]
  settled := by simp [create, SQFuncState.create]

theorem inRange_of_subset {i j : SQInstruction} (h : j.OperandsInRange)
    (hsub : ∀ n ∈ i.operands, n ∈ j.operands) : i.OperandsInRange := fun n hn => h n (hsub n hn)

/-- The code after an instruction was added. -/
theorem mem_addInstruction {fs : SQFuncState} {i j : SQInstruction}
    (h : j ∈ (fs.addInstruction i).instructions) :
    j ∈ fs.instructions ∨ j = i ∨ fs.fusion = true ∧ fs.optimization = true ∧
      ∃ pi ∈ fs.instructions.getLast?, j ∈ (fs.fuse pi i).instructions := by
  have hpush : j ∈ fs.instructions ++ [i] → j ∈ fs.instructions ∨ j = i := by
    simp only [List.mem_append, List.mem_singleton, imp_self]
  unfold SQFuncState.addInstruction at h
  split at h
  · rename_i pi hlast
    split_ifs at h with hopt
    · have hmem : j ∈ fs.instructions.dropLast → j ∈ fs.instructions := List.mem_of_mem_dropLast
      have hpi : fs.fusion = true ∧ fs.optimization = true ∧ (j ∈ (fs.fuse pi i).instructions →
          ∃ pi ∈ fs.instructions.getLast?, j ∈ (fs.fuse pi i).instructions) :=
        ⟨hopt.1, hopt.2, fun hj => ⟨pi, hlast, hj⟩⟩
      cases hfuse : fs.fuse pi i with
      | merge pi' optimization =>
        simp only [hfuse, List.mem_append, Fused.instructions] at h hpi
        tauto
      | keep pi' i' =>
        simp only [hfuse, List.mem_append, Fused.instructions] at h hpi
        tauto
    · exact (hpush h).imp_right .inl
  · exact (hpush h).imp_right .inl

/-- The condition that was taken away is in the code. -/
theorem Blanks.mem {i : SQInstruction} (h : a.Blanks i) :
    { i with arg0 := 0xFF } ∈ (a.fs.addInstruction i).instructions := by
  obtain ⟨hfusion, hopt, pi, hlast, hop, heq, hcmp⟩ := h
  have hfuse : a.fs.fuse pi i = .keep pi { i with arg0 := 0xFF } := by
    simp only [SQFuncState.fuse, hop]
    rw [if_neg hcmp, if_pos heq]
  rw [Option.mem_def] at hlast
  simp [SQFuncState.addInstruction, hlast, hfusion, hopt, hfuse]

/-- Adding an instruction keeps the code in range if and only if no condition is taken away. -/
theorem addInstruction_inRange_iff {i : SQInstruction} (h : Encoded a) (hi : i.OperandsInRange) :
    (∀ j ∈ (a.fs.addInstruction i).instructions, j.OperandsInRange) ↔ ¬a.Blanks i := by
  constructor
  · intro hcode hblanks
    have hop : i.op = .JZ := by
      obtain ⟨-, -, pi, -, hop, -⟩ := hblanks
      exact hop
    have hrange := hcode _ hblanks.mem 255 (by simp [SQInstruction.operands, hop]; rfl)
    exact absurd hrange.2 (by decide)
  · intro hblanks j hj
    obtain hj | rfl | ⟨hfusion, hopt, pi, hlast, hj⟩ := mem_addInstruction hj
    · exact h.code j hj
    · exact hi
    · have hpi : pi.OperandsInRange := h.code pi (List.mem_of_mem_getLast? hlast)
      have hz : ¬BlanksCondition pi i := fun hz => hblanks ⟨hfusion, hopt, pi, hlast, hz⟩
      intro n hn
      exact (fuse_operands a.fs hpi hi hz j hj n hn).elim (hpi n) (hi n)

/-- Filling in an operand that holds no register. -/
theorem modifyInstruction_inRange {fs : SQFuncState} {pos : ℤ} {f : SQInstruction → SQInstruction}
    (h : ∀ i ∈ fs.instructions, i.OperandsInRange)
    (hf : 0 ≤ pos → ∀ i ∈ fs.instructions[pos.toNat]?, i.OperandsInRange → (f i).OperandsInRange) :
    ∀ i ∈ (fs.modifyInstruction pos f).instructions, i.OperandsInRange := by
  unfold SQFuncState.modifyInstruction
  split_ifs with hpos
  · intro j hj
    obtain ⟨n, hn⟩ := List.mem_iff_getElem?.mp hj
    rw [List.getElem?_modify] at hn
    obtain ⟨i, hi, hij⟩ := Option.map_eq_some_iff.mp hn
    have hrange := h i (List.mem_of_getElem? hi)
    by_cases hpn : pos.toNat = n
    · rw [if_pos hpn] at hij
      exact hij ▸ hf hpos i (hpn ▸ hi) hrange
    · rw [if_neg hpn] at hij
      exact hij ▸ hrange
  · exact h

private theorem discardTarget_inRange {fs : SQFuncState}
    (h : ∀ i ∈ fs.instructions, i.OperandsInRange) :
    ∀ i ∈ fs.discardTarget.instructions, i.OperandsInRange := by
  have hpop : fs.popTarget.instructions = fs.instructions := rfl
  intro i hi
  unfold SQFuncState.discardTarget at hi
  cases hlast : fs.instructions.getLast? with
  | none =>
    simp only [hpop, hlast] at hi
    exact h i hi
  | some pi =>
    simp only [hpop, hlast] at hi
    split_ifs at hi with hcond
    · simp only [List.mem_append, List.mem_singleton] at hi
      obtain hi | rfl := hi
      · exact h i (List.mem_of_mem_dropLast hi)
      · exact inRange_of_subset (h pi (List.mem_of_mem_getLast? hlast))
          (operands_blank hcond.2.2.1)
    · exact h i hi

private theorem inRange_of_isPatched {i : SQInstruction} (h : i.IsPatched) (hi : i.OperandsInRange)
    (val : ℤ) : { i with arg1 := val }.OperandsInRange := by
  refine inRange_of_subset hi fun n hn => ?_
  obtain h | ⟨hop, h3⟩ := h
  · simp only [List.mem_cons, List.not_mem_nil, or_false] at h
    obtain h | h | h | h | h | h | h | h := h <;>
      simpa only [SQInstruction.operands, SQInstruction.reg0, SQInstruction.reg2, h] using hn
  · simpa only [SQInstruction.operands, hop, if_neg h3, SQInstruction.reg0] using hn

/-- What the compiler puts in the operands is in range. -/
theorem Encoded.site (h : Encoded a) {site : Site} (hsite : ∀ n ∈ site.registers, n ∈ a.given) :
    site.instruction.OperandsInRange := by
  have hlt : ∀ n ∈ site.operands, n < 255 := fun n hn =>
    h.given n (hsite n (site.operands_subset n hn))
  intro r hr
  rw [site.operands_instruction hlt] at hr
  obtain ⟨n, hn, rfl⟩ := List.mem_map.mp hr
  exact ⟨Int.natCast_nonneg n, by exact_mod_cast hlt n hn⟩

/-- What the compiler means is what `Execute` uses, but for a far call, when attributes are below
their key. -/
theorem Encoded.exact_iff (h : Encoded a) {site : Site}
    (hsite : ∀ n ∈ site.registers, n ∈ a.given) : Exact (.add site) ↔ site.AttributesBelow := by
  have hregs := site.registers_instruction fun n hn => h.given n (hsite n hn)
  rw [Exact, hregs]
  by_cases hfar : site.instruction.IsFarCall
  · exact iff_of_true (.inr hfar) (site.attributesBelow_of_isFarCall hfar)
  · rw [or_iff_left hfar, and_iff_right hfar]

/-- Taking a slot gives out a register that is in range if and only if the slot is. -/
theorem Encoded.given_iff (h : Encoded a) (n : ℕ) :
    (∀ m ∈ n :: a.given, m < MAX_FUNC_STACKSIZE) ↔ n < MAX_FUNC_STACKSIZE := by
  rw [List.forall_mem_cons]
  exact and_iff_left h.given

/-- What was cut out of the code was in it. -/
theorem cut_of_step (h : Encoded a) (hstep : a.step r = .ok a') :
    ∀ i ∈ a'.cut, i.OperandsInRange := by
  cases r with
  | pushTarget =>
    obtain ⟨⟨n, b⟩, hb, hret⟩ := exists_of_bind_eq_ok hstep
    obtain rfl := Except.ok.inj hret
    have hcut : b.cut = a.cut := by
      simp only [allocStackPos] at hb
      split_ifs at hb <;> cases hb <;> rfl
    exact hcut ▸ h.cut
  | popInstructions size =>
    obtain rfl := Except.ok.inj hstep
    intro i hi
    obtain hi | hi := List.mem_append.mp hi
    · exact h.code i (List.mem_of_mem_drop hi)
    · exact h.cut i hi
  | _ =>
    obtain rfl := Except.ok.inj hstep
    exact h.cut

/-! ### Calls with a far target -/

/-- Only the last instruction can be stray, and then it is a far call that was just added. -/
def Settles (r : Request) (a' : Allocator) : Prop :=
  (∀ i ∈ a'.cut, ¬i.IsStray) ∧ ∀ n i, a'.fs.instructions[n]? = some i → i.IsStray →
    n + 1 = a'.fs.instructions.length ∧ IsAdd r ∧ i.IsFarCall

private theorem codeInRange_iff : CodeInRange r a' ↔ ((∀ i ∈ a'.cut, i.OperandsInRange) ∧
    ∀ i ∈ a'.fs.instructions, i.OperandsInRange) ∧ Settles r a' := by
  have hcut : (∀ i ∈ a'.cut, i.InRange) ↔
      (∀ i ∈ a'.cut, i.OperandsInRange) ∧ ∀ i ∈ a'.cut, ¬i.IsStray := by
    simp only [SQInstruction.inRange_iff, forall_and]
  have hcode : (∀ i ∈ a'.fs.instructions, i.OperandsInRange) ↔
      ∀ (n : ℕ) (i : SQInstruction), a'.fs.instructions[n]? = some i → i.OperandsInRange := by
    refine ⟨fun h n i hi => h i (List.mem_of_getElem? hi), fun h i hi => ?_⟩
    obtain ⟨n, hn⟩ := List.mem_iff_getElem?.mp hi
    exact h n i hn
  rw [CodeInRange, Settles, hcut, hcode, and_and_and_comm]
  refine and_congr_right fun _ => ?_
  constructor
  · refine fun h => ⟨fun n i hi => ?_, fun n i hi hstray => ?_⟩
    · exact (h n i hi).elim (fun hrange => (SQInstruction.inRange_iff.mp hrange).1) And.right
    · refine (h n i hi).elim (fun hrange => ?_) And.left
      exact absurd hstray (SQInstruction.inRange_iff.mp hrange).2
  · rintro ⟨hops, hstray⟩ n i hi
    by_cases hs : i.IsStray
    · exact .inr ⟨hstray n i hi hs, hops n i hi⟩
    · exact .inl (SQInstruction.inRange_iff.mpr ⟨hops n i hi, hs⟩)

/-- Nothing is stray after a request that adds nothing. -/
theorem settles_of_not_isAdd (hr : ¬IsAdd r) : Settles r a' ↔
    (∀ i ∈ a'.cut, ¬i.IsStray) ∧ ∀ i ∈ a'.fs.instructions, ¬i.IsStray := by
  refine and_congr_right fun _ => ⟨fun h i hi hstray => ?_, fun h n i hi hstray => ?_⟩
  · obtain ⟨n, hn⟩ := List.mem_iff_getElem?.mp hi
    exact hr (h n i hn hstray).2.1
  · exact absurd hstray (h i (List.mem_of_getElem? hi))

/-- After an addition the instructions before the last are not stray. -/
theorem settles_concat {l : List SQInstruction} {i : SQInstruction}
    (hl : a'.fs.instructions = l ++ [i]) (hcut : ∀ j ∈ a'.cut, ¬j.IsStray)
    (hi : i.IsStray → IsAdd r ∧ i.IsFarCall) : Settles r a' ↔ ∀ j ∈ l, ¬j.IsStray := by
  rw [Settles, and_iff_right hcut, hl]
  constructor
  · intro h j hj hstray
    obtain ⟨n, hn⟩ := List.mem_iff_getElem?.mp hj
    obtain ⟨hlt, -⟩ := List.getElem?_eq_some_iff.mp hn
    have hlast := (h n j (by rw [List.getElem?_append_left hlt, hn]) hstray).1
    rw [List.length_append, List.length_singleton] at hlast
    omega
  · intro h n j hn hstray
    by_cases hlt : n < l.length
    · rw [List.getElem?_append_left hlt] at hn
      exact absurd hstray (h j (List.mem_of_getElem? hn))
    · rw [List.getElem?_append_right (Nat.le_of_not_lt hlt), List.getElem?_singleton] at hn
      split_ifs at hn with hzero
      obtain rfl := Option.some.inj hn
      refine ⟨?_, hi hstray⟩
      rw [List.length_append, List.length_singleton]
      omega

theorem Encoded.not_endsFar_iff (h : Encoded a) :
    ¬a.EndsFar ↔ ∀ i ∈ a.fs.instructions, ¬i.IsStray := by
  constructor
  · intro hfar i hi hstray
    obtain ⟨n, hn⟩ := List.mem_iff_getElem?.mp hi
    obtain ⟨hlast, hcall⟩ := h.settled n i hn hstray
    refine hfar ⟨i, ?_, hcall⟩
    rw [Option.mem_def, List.getLast?_eq_getElem?, ← hn, ← hlast, Nat.add_sub_cancel]
  · rintro hnone ⟨i, hi, hfar⟩
    exact hnone i (List.mem_of_mem_getLast? hi) (.inl hfar)

/-- The code after an addition: the last instruction, and what is before it -/
theorem addInstruction_stray (fs : SQFuncState) (i : SQInstruction) :
    ∃ l i', (fs.addInstruction i).instructions = l ++ [i'] ∧ (i'.IsStray → i' = i ∧ i.IsStray) ∧
      ((∀ j ∈ l, ¬j.IsStray) ↔ ∀ j ∈ fs.instructions, ¬j.IsStray) := by
  have hpush : ∃ l i', fs.instructions ++ [i] = l ++ [i'] ∧ (i'.IsStray → i' = i ∧ i.IsStray) ∧
      ((∀ j ∈ l, ¬j.IsStray) ↔ ∀ j ∈ fs.instructions, ¬j.IsStray) :=
    ⟨fs.instructions, i, rfl, fun h => ⟨rfl, h⟩, Iff.rfl⟩
  unfold SQFuncState.addInstruction
  split
  · rename_i pi hlast
    split_ifs with hopt
    · have hsplit : (∀ j ∈ fs.instructions, ¬j.IsStray) ↔
          (∀ j ∈ fs.instructions.dropLast, ¬j.IsStray) ∧ ¬pi.IsStray := by
        rw [← List.forall_mem_singleton (p := fun j : SQInstruction => ¬j.IsStray),
          ← List.forall_mem_append, List.dropLast_append_getLast? pi hlast]
      have hfuse : StrayFrom pi i (fs.fuse pi i) := fuse_stray fs
      split
      · rename_i pi' optimization heq
        rw [heq] at hfuse
        refine ⟨_, pi', rfl, fun h => absurd h hfuse.2, ?_⟩
        rw [hsplit]
        exact (and_iff_left hfuse.1).symm
      · rename_i pi' i' heq
        rw [heq] at hfuse
        refine ⟨fs.instructions.dropLast ++ [pi'], i', ?_, fun h => ?_, ?_⟩
        · rw [List.append_assoc]
          rfl
        · obtain rfl := hfuse.2 h
          exact ⟨rfl, h⟩
        · rw [hsplit, List.forall_mem_append, List.forall_mem_singleton, hfuse.1]
    · exact hpush
  · exact hpush

/-- Adding an instruction that is settled leaves the code settled if it was. -/
theorem settles_addInstruction (h : Encoded a) {i : SQInstruction}
    (hi : i.IsStray → IsAdd r ∧ i.IsFarCall) :
    Settles r { a with fs := a.fs.addInstruction i } ↔ ¬a.EndsFar := by
  obtain ⟨l, i', hl, hi', hbefore⟩ := addInstruction_stray a.fs i
  rw [h.not_endsFar_iff, ← hbefore]
  have hcut : ∀ j ∈ ({ a with fs := a.fs.addInstruction i } : Allocator).cut, ¬j.IsStray :=
    h.cutNear
  refine settles_concat hl hcut fun hstray => ?_
  obtain ⟨rfl, hstray⟩ := hi' hstray
  exact hi hstray

/-- Filling in an operand that is not read as a register. -/
theorem not_isStray_modifyInstruction {fs : SQFuncState} {pos : ℤ}
    {f : SQInstruction → SQInstruction}
    (hf : 0 ≤ pos → ∀ i ∈ fs.instructions[pos.toNat]?, (f i).IsStray ↔ i.IsStray) :
    (∀ i ∈ (fs.modifyInstruction pos f).instructions, ¬i.IsStray) ↔
      ∀ i ∈ fs.instructions, ¬i.IsStray := by
  unfold SQFuncState.modifyInstruction
  split_ifs with hpos
  · simp only [List.mem_iff_getElem?, List.getElem?_modify, forall_exists_index]
    rw [forall_comm, forall_comm (α := SQInstruction)]
    refine forall_congr' fun n => ?_
    cases hn : fs.instructions[n]? with
    | none => simp
    | some i =>
      by_cases hpn : pos.toNat = n
      · have hiff := hf hpos i (by rw [hpn, hn]; rfl)
        simp [hpn, hiff]
      · simp [hpn]
  · rfl

/-- The target is taken away from a far call, or the call stays. -/
theorem settles_discardTarget (h : Encoded a) :
    Settles .discardTarget { a with fs := a.fs.discardTarget } ↔ (a.EndsFar → a.DiscardsCall) := by
  rw [settles_of_not_isAdd id, and_iff_right h.cutNear]
  have hpop : a.fs.popTarget.instructions = a.fs.instructions := rfl
  cases hlast : a.fs.instructions.getLast? with
  | none =>
    have hinstrs : a.fs.discardTarget.instructions = a.fs.instructions := by
      simp only [SQFuncState.discardTarget, hpop, hlast]
    have hfar : ¬a.EndsFar := by
      rintro ⟨i, hi, -⟩
      rw [hlast] at hi
      cases hi
    rw [iff_true_right fun hends => absurd hends hfar]
    change ∀ i ∈ a.fs.discardTarget.instructions, _
    rw [hinstrs]
    exact h.not_endsFar_iff.mp hfar
  | some pi =>
    have hends : a.EndsFar ↔ pi.IsFarCall := by
      simp only [EndsFar, hlast, Option.mem_def, Option.some.injEq, exists_eq_left']
    by_cases hcond : a.fs.popTarget.fusion = true ∧ a.fs.popTarget.optimization = true ∧
        pi.op ∈ [SQOpcode.SET, .NEWSLOT, .SETOUTER, .CALL] ∧ pi.arg0.toNat = a.fs.topTarget
    · have hinstrs : a.fs.discardTarget.instructions =
          a.fs.instructions.dropLast ++ [{ pi with arg0 := 0xFF }] := by
        simp only [SQFuncState.discardTarget, hpop, hlast]
        rw [if_pos hcond]
      refine iff_of_true (fun i hi hstray => ?_) fun hfar => ⟨hcond.1, hcond.2.1, pi, ?_, ?_, hcond.2.2.2⟩
      · rw [hinstrs] at hi
        obtain hi | hi := List.mem_append.mp hi
        · obtain ⟨n, hn⟩ := List.mem_iff_getElem?.mp hi
          obtain ⟨hlt, -⟩ := List.getElem?_eq_some_iff.mp hn
          rw [List.length_dropLast] at hlt
          rw [List.getElem?_dropLast, if_pos (by omega)] at hn
          have hend := (h.settled n i hn hstray).1
          omega
        · obtain rfl := List.mem_singleton.mp hi
          obtain hfar | hattrs := hstray
          · exact hfar.2.2 rfl
          · have hop := hcond.2.2.1
            rw [hattrs.1] at hop
            exact absurd hop (by decide)
      · exact hlast
      · have hcall := (hends.mp hfar).1
        have hop := hcond.2.2.1
        simp only [List.mem_cons, List.not_mem_nil, or_false] at hcall
        obtain hcall | hcall := hcall
        · exact hcall
        · rw [hcall] at hop
          exact absurd hop (by decide)
    · have hinstrs : a.fs.discardTarget.instructions = a.fs.instructions := by
        simp only [SQFuncState.discardTarget, hpop, hlast]
        rw [if_neg hcond]
        exact hpop
      have hno : ¬a.DiscardsCall := by
        rintro ⟨hfusion, hopt, i, hi, hop, htop⟩
        obtain rfl : pi = i := Option.some.inj (hlast.symm.trans hi)
        exact hcond ⟨hfusion, hopt, by rw [hop]; decide, htop⟩
      change (∀ i ∈ a.fs.discardTarget.instructions, _) ↔ _
      rw [hinstrs, ← h.not_endsFar_iff]
      exact ⟨fun hfar hends => absurd hends hfar, fun himp hends => hno (himp hends)⟩

private theorem settles_same (h : Encoded a) (hr : ¬IsAdd r) (hcut : a'.cut = a.cut)
    (hcode : a'.fs.instructions = a.fs.instructions) : Settles r a' ↔ ¬a.EndsFar := by
  rw [settles_of_not_isAdd hr, hcut, hcode, h.not_endsFar_iff]
  exact and_iff_right h.cutNear

private theorem settles_modifyInstruction (h : Encoded a) (hr : ¬IsAdd r) {pos : ℤ}
    {f : SQInstruction → SQInstruction}
    (hf : 0 ≤ pos → ∀ i ∈ a.fs.instructions[pos.toNat]?, (f i).IsStray ↔ i.IsStray) :
    Settles r { a with fs := a.fs.modifyInstruction pos f } ↔ ¬a.EndsFar := by
  rw [settles_of_not_isAdd hr, and_iff_right h.cutNear, h.not_endsFar_iff]
  exact not_isStray_modifyInstruction hf

private theorem settles_popInstructions (h : Encoded a) (size : ℕ) :
    Settles (.popInstructions size) (a.popInstructions size) ↔ ¬a.EndsFar := by
  rw [settles_of_not_isAdd id, h.not_endsFar_iff]
  change (∀ i ∈ a.fs.instructions.drop _ ++ a.cut, _) ∧ (∀ i ∈ a.fs.instructions.take _, _) ↔ _
  rw [List.forall_mem_append, and_iff_left h.cutNear, and_comm, ← List.forall_mem_append,
    List.take_append_drop]

/-- A slot is found for a temporary. -/
theorem pushTarget_ok
    (h : ¬(a.stacksize < a.fs.vlocals.length + 1 ∧ MAX_FUNC_STACKSIZE < a.stacksize)) :
    ∃ a', a.step .pushTarget = .ok a' ∧ a'.given = a.fs.vlocals.length :: a.given ∧
      a'.cut = a.cut ∧ a'.fs.instructions = a.fs.instructions := by
  simp only [step, pushTarget, allocStackPos, List.length_append, List.length_singleton]
  split_ifs with hgrow hfull
  · exact absurd ⟨hgrow, hfull⟩ h
  · exact ⟨_, rfl, rfl, rfl, rfl⟩
  · exact ⟨_, rfl, rfl, rfl, rfl⟩

/-- A step that is not rejected is judged by the registers given, the operands and the calls. -/
theorem encodes_of_ok (h : Encoded a) (hstep : a.step r = .ok a') :
    Encodes a r ↔ (∀ n ∈ a'.given, n < MAX_FUNC_STACKSIZE) ∧
      (∀ i ∈ a'.fs.instructions, i.OperandsInRange) ∧ Settles r a' ∧ Exact r := by
  simp only [Encodes, hstep, codeInRange_iff, and_assoc]
  rw [and_iff_right (cut_of_step h hstep)]

end Steps

/-- A request is encoded if and only if it stays within the limit. -/
theorem encodes_iff {a : Allocator} {r : Request} (h : Encoded a) (hallows : a.Allows r) :
    Encodes a r ↔ a.WithinLimit r := by
  have hquiet : ∀ {a' : Allocator} {W : Prop}, a.step r = .ok a' → a'.given = a.given →
      (∀ i ∈ a'.fs.instructions, i.OperandsInRange) → Exact r → (Settles r a' ↔ W) →
      (Encodes a r ↔ W) := by
    intro a' W hstep hgiven hcode hexact hsettles
    rw [encodes_of_ok h hstep, hgiven, and_iff_right h.given, and_iff_right hcode,
      and_iff_left hexact, hsettles]
  cases r with
  | pushTarget =>
    by_cases hfull : a.stacksize < a.fs.vlocals.length + 1 ∧ MAX_FUNC_STACKSIZE < a.stacksize
    · have hstep : a.step .pushTarget = .error "internal compiler error: too many locals" := by
        simp only [step, pushTarget, allocStackPos, List.length_append, List.length_singleton]
        rw [if_pos hfull.1, if_pos hfull.2]
        rfl
      simp only [Encodes, hstep, WithinLimit, true_and]
      omega
    · obtain ⟨a', hstep, hgiven, hcut, hcode⟩ := pushTarget_ok hfull
      have hsettles : Settles .pushTarget a' ↔ ¬a.EndsFar := settles_same h id hcut hcode
      rw [encodes_of_ok h hstep, hgiven, h.given_iff, hcode, and_iff_right h.code, hsettles,
        WithinLimit, or_iff_left fun h => hfull ⟨by omega, h.1⟩]
      exact and_congr_right fun _ => and_iff_left trivial
  | pushLocalVariable =>
    have hsettles : Settles .pushLocalVariable a.pushLocalVariable ↔ ¬a.EndsFar :=
      settles_same h id rfl rfl
    rw [encodes_of_ok h rfl, hsettles, WithinLimit]
    change (∀ n ∈ a.fs.vlocals.length :: a.given, _) ∧ (∀ i ∈ a.fs.instructions, _) ∧ _ ∧ True ↔ _
    rw [h.given_iff, and_iff_right h.code, and_true]
  | add site =>
    have hexact := h.exact_iff hallows
    have hblanks := addInstruction_inRange_iff h (h.site hallows)
    rw [encodes_of_ok h rfl, WithinLimit, hexact, ← hblanks]
    change (∀ n ∈ a.given, _) ∧ _ ↔ _
    rw [and_iff_right h.given]
    refine and_congr_right fun _ => and_congr_left fun hbelow => ?_
    exact settles_addInstruction h fun hstray => ⟨trivial, site.isFarCall_of_isStray
      (fun n hn => h.given n (hallows n hn)) hbelow hstray⟩
  | addAgain i =>
    have hblanks := addInstruction_inRange_iff h (h.cut i hallows)
    rw [encodes_of_ok h rfl, WithinLimit, ← hblanks]
    change (∀ n ∈ a.given, _) ∧ (∀ j ∈ (a.fs.addInstruction i).instructions, _) ∧ _ ∧ True ↔ _
    rw [and_iff_right h.given, and_true]
    exact and_congr_right fun _ =>
      settles_addInstruction h fun hstray => absurd hstray (h.cutNear i hallows)
  | discardTarget =>
    exact hquiet rfl rfl (discardTarget_inRange h.code) trivial (settles_discardTarget h)
  | popInstructions size =>
    exact hquiet rfl rfl (fun i hi => h.code i (List.mem_of_mem_take hi)) trivial
      (settles_popInstructions h size)
  | setArg1 pos val =>
    exact hquiet rfl rfl (modifyInstruction_inRange h.code fun hpos i hi hrange =>
      inRange_of_isPatched (hallows hpos i hi) hrange val) trivial
      (settles_modifyInstruction h id fun _ _ _ => Iff.rfl)
  | setJump pos offset =>
    refine hquiet rfl rfl (modifyInstruction_inRange h.code fun hpos i hi _ n hn => ?_) trivial
      (settles_modifyInstruction h id fun hpos i hi => ?_)
    · simp only [SQInstruction.operands, hallows hpos i hi, List.not_mem_nil] at hn
    · have hop := hallows hpos i hi
      exact iff_of_false (not_isStray (by rw [hop]; decide)) (not_isStray (by rw [hop]; decide))
  | setTrap trappos ex_target =>
    refine hquiet rfl rfl (modifyInstruction_inRange h.code fun hpos i hi _ n hn => ?_) trivial
      (settles_modifyInstruction h id fun hpos i hi => ?_)
    · have hlt : ex_target < 255 := h.given ex_target hallows.2
      simp only [SQInstruction.operands, hallows.1 hpos i hi, SQInstruction.reg0,
        toNat_ofInt hlt, List.mem_singleton] at hn
      exact hn ▸ ⟨Int.natCast_nonneg _, by exact_mod_cast hlt⟩
    · have hop := hallows.1 hpos i hi
      exact iff_of_false (not_isStray (by rw [hop]; decide)) (not_isStray (by rw [hop]; decide))
  | _ => exact hquiet rfl rfl h.code trivial (settles_same h id rfl rfl)

/-- What is encoded leads to what can be encoded. -/
theorem Encodes.encoded {a a' : Allocator} {r : Request} (h : Encoded a) (henc : Encodes a r)
    (hstep : a.next r = some a') : Encoded a' := by
  have hok : a.step r = .ok a' := by
    unfold next at hstep
    cases hres : a.step r with
    | error e => simp [hres, Except.toOption] at hstep
    | ok a'' => simpa [hres, Except.toOption] using hstep
  obtain ⟨hgiven, hcode, hsettles, -⟩ := (encodes_of_ok h hok).mp henc
  refine ⟨hgiven, hcode, cut_of_step h hok, hsettles.1, fun n i hi hstray => ?_⟩
  obtain ⟨hlast, -, hfar⟩ := hsettles.2 n i hi hstray
  exact ⟨hlast, hfar⟩

/-- The registers that a function is given, and those in its code, are encoded without loss along
a run if and only if the run stays within the limit. -/
theorem registers_encoded_iff (fusion lineinfo parent : Bool) {rs : List Request}
    (hrs : Guarded next Allows (create fusion lineinfo parent) rs) :
    Guarded next Encodes (create fusion lineinfo parent) rs ↔
      Guarded next WithinLimit (create fusion lineinfo parent) rs := by
  have hkeeps : ∀ a r a', Encoded a → Allows a r → Encodes a r → next a r = some a' → Encoded a' :=
    fun _ _ _ h _ henc hstep => henc.encoded h hstep
  exact Guarded.iff_of_invariant hkeeps (fun _ _ h hallows => encodes_iff h hallows)
    (encoded_create fusion lineinfo parent) hrs

/-- A function with one parameter and a temporary. -/
theorem registers_encoded_iff_temporary :
    Guarded next Encodes (create true true true) [.pushLocalVariable, .pushTarget, .popTarget] ↔
      Guarded next WithinLimit (create true true true)
        [.pushLocalVariable, .pushTarget, .popTarget] :=
  registers_encoded_iff true true true
    (.cons trivial rfl (.cons trivial rfl (.cons (by decide) rfl trivial)))

section Overflow

/-- Parameters and locals are not counted against the limit. -/
theorem run_pushLocalVariable (a : Allocator) (n : ℕ) :
    ∃ t, run next a (List.replicate n .pushLocalVariable) = some t ∧
      t.fs.vlocals.length = a.fs.vlocals.length + n := by
  induction n generalizing a with
  | zero => exact ⟨a, rfl, rfl⟩
  | succ n ih =>
    obtain ⟨t, ht, hlen⟩ := ih a.pushLocalVariable
    refine ⟨t, ht, hlen.trans ?_⟩
    simp only [pushLocalVariable, SQFuncState.pushLocalVariable, List.length_append,
      List.length_singleton]
    omega

/-- The last of more than 255 slots does not fit. -/
theorem not_encodes_of_full {a : Allocator} (h : MAX_FUNC_STACKSIZE ≤ a.fs.vlocals.length) :
    ¬Encodes a .pushLocalVariable := by
  intro henc
  simp only [Encodes, step] at henc
  exact absurd (henc.1 _ List.mem_cons_self) (Nat.not_lt.mpr h)

/-- `if(this)` at the beginning of a script that is compiled with line information. -/
def ifThis : List Request :=
  [.pushLocalVariable, .pushLocalVariable, .add (.line 1), .pushTargetAt 0, .popTarget]

def ifThisJump : Request := .add (.target .JZ (by decide) 0 0 0)

/-- 256 parameters are accepted, and the condition `this` is taken from register 255. -/
theorem registers_not_encoded :
    ¬(∀ rs, Guarded next Allows (create true true false) rs →
      Guarded next Encodes (create true true false) rs) ∧
    ¬Guarded next Encodes (create true true true) (List.replicate 256 .pushLocalVariable) := by
  constructor
  · intro h
    have hallows : Guarded next Allows (create true true false) (ifThis ++ [ifThisJump]) :=
      .cons trivial rfl <| .cons trivial rfl <| .cons (by decide) rfl <| .cons (by decide) rfl <|
        .cons (by decide) rfl <| .cons (by decide) rfl trivial
    have henc := (h _ hallows).last rfl
    obtain hrange | ⟨⟨-, -, hfar⟩, -⟩ := henc.2.1.2 1
      { op := .JZ, arg0 := 0xFF, arg1 := 0, arg2 := 0, arg3 := 0, source := none } (by decide)
    · exact absurd (hrange 255 (by decide)).2 (by decide)
    · exact absurd hfar.1 (by decide)
  · intro h
    obtain ⟨t, ht, hlen⟩ := run_pushLocalVariable (create true true true) 255
    rw [List.replicate_succ'] at h
    exact not_encodes_of_full hlen.ge (h.last ht)

end Overflow

end Allocator
end Squirt.SQCompiler
