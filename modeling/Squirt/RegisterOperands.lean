import Mathlib.Algebra.Ring.Nat
import Squirt.CodeEmission
import Squirt.VmObjects

/-!
# The registers of an instruction

What `Execute` takes for a register in an instruction, what the compiler asks for at the places
where it adds one, and that the optimizer makes up no register of its own.
-/

namespace Squirt.SQCompiler

/-- The `0xFF` that stands for no register. -/
def byteTarget (arg : BitVec 8) : List ℤ := if arg = 0xFF then [] else [(arg.toNat : ℤ)]

/-- `(src<<16)|val` -/
def packCompArith (src val : ℕ) : ℤ := ((src <<< 16 ||| val : ℕ) : ℤ)

/-- `((SQUnsignedInteger)arg1&0xFFFF0000)>>16` -/
def compArithSource (arg1 : ℤ) : ℕ := ((BitVec.ofInt 32 arg1 &&& 0xFFFF0000#32) >>> 16).toNat

/-- `arg1&0x0000FFFF` -/
def compArithValue (arg1 : ℤ) : ℕ := (BitVec.ofInt 32 arg1 &&& 0x0000FFFF#32).toNat

namespace SQInstruction

variable (i : SQInstruction)

/-- `STK(arg0)`, `STK(arg2)`, `STK(arg3)` -/
def reg0 : ℤ := i.arg0.toNat

def reg2 : ℤ := i.arg2.toNat

def reg3 : ℤ := i.arg3.toNat

/-- The registers that the operands hold, as unsigned bytes, less those of the arguments of a
call. -/
def operands : List ℤ :=
  match i.op with
  | .LOAD | .LOADINT | .LOADFLOAT | .LOADROOT | .LOADBOOL | .GETOUTER | .CLOSURE | .GETBASE | .JZ
  | .PUSHTRAP | .THROW | .POSTFOREACH => [i.reg0]
  | .LOADNULLS => (List.range (max 1 i.arg1.toNat)).map fun n : ℕ => i.reg0 + n
  | .DLOAD | .GETK | .AND | .OR | .JCMP => [i.reg0, i.reg2]
  | .CALL | .TAILCALL => byteTarget i.arg0 ++ [i.arg1, i.reg2]
  | .PREPCALL | .DMOVE => [i.reg0, i.arg1, i.reg2, i.reg3]
  | .PREPCALLK => [i.reg0, i.reg2, i.reg3]
  | .MOVE | .NEG | .NOT | .BWNOT | .CLONE | .TYPEOF | .RESUME | .INCL | .PINCL => [i.reg0, i.arg1]
  | .NEWSLOT | .SET => byteTarget i.arg0 ++ [i.arg1, i.reg2, i.reg3]
  | .NEWSLOTA => [i.arg1, i.reg2, i.reg3]
  | .DELETE | .GET | .ADD | .SUB | .MUL | .DIV | .MOD | .BITW | .CMP | .EXISTS | .INSTANCEOF
  | .DYNAMICCAST | .INC | .PINC => [i.reg0, i.arg1, i.reg2]
  | .EQ | .NE => if i.arg3 = 0 then [i.reg0, i.arg1, i.reg2] else [i.reg0, i.reg2]
  | .SETOUTER => byteTarget i.arg0 ++ [i.reg2]
  | .NEWOBJ =>
    if i.arg3 = 2 then i.reg0 :: ((if i.arg1 = -1 then [] else [i.arg1]) ++ byteTarget i.arg2)
    else [i.reg0]
  | .APPENDARRAY => if i.arg2 = 0 then [i.reg0, i.arg1] else [i.reg0]
  | .COMPARITH => [i.reg0, compArithSource i.arg1, i.reg2, compArithValue i.arg1]
  | .RETURN => if i.arg0 = 0xFF then [] else [i.arg1]
  | .YIELD | .CLOSE => [i.arg1]
  | .FOREACH => [i.reg0, i.reg2, i.reg2 + 1, i.reg2 + 2]
  | .LINE | .JMP | .POPTRAP => []

/-- Every register is one that a byte holds and `0xFF` is not. -/
def OperandsInRange : Prop := ∀ r ∈ i.operands, 0 ≤ r ∧ r < MAX_FUNC_STACKSIZE

/-- `NEW_SLOT_ATTRIBUTES_FLAG` is set in the flags of a `_OP_NEWSLOTA`. -/
def HasAttributes : Prop := i.arg0 &&& 0x01 ≠ 0

instance : Decidable i.HasAttributes := inferInstanceAs (Decidable (_ ≠ _))

/-- The slots of the stack that `Execute` uses, less those of the arguments of a call. The target
of a call is `sarg0` in `StartCall`, and the attributes of `_OP_NEWSLOTA` are in `STK(arg2-1)`. -/
def registers : List ℤ :=
  match i.op with
  | .CALL | .TAILCALL => (if i.arg0 = 0xFF then [] else [i.arg0.toInt]) ++ [i.arg1, i.reg2]
  | .NEWSLOTA => i.operands ++ if i.HasAttributes then [i.reg2 - 1] else []
  | _ => i.operands

def InRange : Prop := ∀ r ∈ i.registers, 0 ≤ r ∧ r < MAX_FUNC_STACKSIZE

/-- A call with a target that is negative as `sarg0` -/
def IsFarCall : Prop := i.op ∈ [.CALL, .TAILCALL] ∧ 128 ≤ i.arg0.toNat ∧ i.arg0 ≠ 0xFF

/-- A register that `Execute` reads is not among the operands and out of range. -/
def IsStray : Prop := i.IsFarCall ∨ i.op = .NEWSLOTA ∧ i.HasAttributes ∧ i.arg2 = 0

variable {i}

private theorem toInt_of_lt {arg : BitVec 8} (h : arg.toNat < 128) : arg.toInt = arg.toNat := by
  rw [BitVec.toInt_eq_toNat_cond, if_pos (by omega)]

theorem toInt_neg_of_le {arg : BitVec 8} (h : 128 ≤ arg.toNat) : arg.toInt < 0 := by
  have hlt := arg.isLt
  rw [BitVec.toInt_eq_toNat_cond, if_neg (by omega)]
  omega

theorem registers_call (hop : i.op ∈ [.CALL, .TAILCALL]) :
    i.registers = (if i.arg0 = 0xFF then [] else [i.arg0.toInt]) ++ [i.arg1, i.reg2] := by
  simp only [List.mem_cons, List.not_mem_nil, or_false] at hop
  obtain hop | hop := hop <;> simp only [registers, hop]

theorem operands_call (hop : i.op ∈ [.CALL, .TAILCALL]) :
    i.operands = byteTarget i.arg0 ++ [i.arg1, i.reg2] := by
  simp only [List.mem_cons, List.not_mem_nil, or_false] at hop
  obtain hop | hop := hop <;> simp only [operands, hop]

theorem registers_near (hop : i.op ∈ [.CALL, .TAILCALL]) (h : i.arg0.toNat < 128) :
    i.registers = i.operands := by
  rw [registers_call hop, operands_call hop, byteTarget, toInt_of_lt h]

theorem registers_newSlotA (hop : i.op = .NEWSLOTA) :
    i.registers = i.operands ++ if i.HasAttributes then [i.reg2 - 1] else [] := by
  simp only [registers, hop]

theorem registers_plain (hcall : i.op ∉ [.CALL, .TAILCALL]) (hop : i.op ≠ .NEWSLOTA) :
    i.registers = i.operands := by
  unfold registers
  split
  · rename_i h
    exact absurd (by rw [h]; decide) hcall
  · rename_i h
    exact absurd (by rw [h]; decide) hcall
  · rename_i h
    exact absurd h hop
  · rfl

/-- An instruction is in range when its operands are and it is not one of those that read another
register. -/
theorem inRange_iff : i.InRange ↔ i.OperandsInRange ∧ ¬i.IsStray := by
  by_cases hcall : i.op ∈ [.CALL, .TAILCALL]
  · have hop : i.op ≠ .NEWSLOTA := by
      intro hop
      rw [hop] at hcall
      exact absurd hcall (by decide)
    have hstray : i.IsStray ↔ 128 ≤ i.arg0.toNat ∧ i.arg0 ≠ 0xFF := by
      rw [IsStray, or_iff_left fun h => hop h.1, IsFarCall, and_iff_right hcall]
    rw [hstray]
    by_cases hnear : i.arg0.toNat < 128
    · rw [InRange, registers_near hcall hnear, OperandsInRange]
      exact (and_iff_left fun h => absurd h.1 (by omega)).symm
    · by_cases hnone : i.arg0 = 0xFF
      · rw [InRange, OperandsInRange, registers_call hcall, operands_call hcall, byteTarget,
          if_pos hnone, if_pos hnone]
        exact (and_iff_left fun h => h.2 hnone).symm
      · refine iff_of_false (fun h => ?_) fun h => h.2 ⟨by omega, hnone⟩
        have hneg := toInt_neg_of_le (Nat.le_of_not_lt hnear)
        have htarget := h i.arg0.toInt (by
          rw [registers_call hcall, if_neg hnone]
          exact List.mem_cons_self)
        omega
  · have hfar : ¬i.IsFarCall := fun h => hcall h.1
    rw [IsStray, or_iff_right hfar]
    by_cases hop : i.op = .NEWSLOTA
    · have hmem : i.reg2 ∈ i.operands := by simp [operands, hop]
      have hzero : i.arg2 = 0 ↔ i.reg2 = 0 := by
        rw [reg2, Int.natCast_eq_zero, ← BitVec.toNat_inj]
        rfl
      rw [and_iff_right hop, hzero, InRange, registers_newSlotA hop]
      by_cases hattrs : i.HasAttributes
      · rw [if_pos hattrs, List.forall_mem_append, List.forall_mem_singleton, and_iff_right hattrs]
        refine and_congr_right fun h => ?_
        obtain ⟨h0, h255⟩ := h i.reg2 hmem
        rw [MAX_FUNC_STACKSIZE] at h255 ⊢
        omega
      · rw [if_neg hattrs, List.append_nil]
        exact (and_iff_left fun h => hattrs h.1).symm
    · rw [InRange, registers_plain hcall hop, OperandsInRange]
      exact (and_iff_left fun h => hop h.1).symm

end SQInstruction

/-- What `BIN_EXP`, `Emit2ArgsOP`, `EmitCompoundArith` and `SwitchStatement` add. -/
def binaryOps : List SQOpcode :=
  [.GET, .DELETE, .EQ, .NE, .ADD, .SUB, .MUL, .DIV, .MOD, .BITW, .CMP, .EXISTS, .INSTANCEOF,
    .DYNAMICCAST, .INC, .PINC]

/-- What `UnaryOP`, `PrefixIncDec` and the moves add. -/
def unaryOps : List SQOpcode :=
  [.MOVE, .NEG, .NOT, .BWNOT, .CLONE, .TYPEOF, .RESUME, .INCL, .PINCL]

/-- What has one register, its target or its condition. -/
def targetOps : List SQOpcode :=
  [.LOAD, .LOADINT, .LOADFLOAT, .LOADROOT, .LOADBOOL, .GETOUTER, .CLOSURE, .GETBASE, .JZ, .THROW]

/-- The places where the compiler adds an instruction, with the registers it has there. -/
inductive Site
  | line (n : ℤ)
  | jump (offset : ℤ)
  | pushTrap
  | popTrap (ntraps : ℕ)
  | close (stacksize : ℕ)
  /-- `return` and `yield` -/
  | leave (op : SQOpcode) (hop : op = .RETURN ∨ op = .YIELD) (exp : Option ℕ) (stacksize : ℕ)
  | target (op : SQOpcode) (hop : op ∈ targetOps) (trg : ℕ) (arg1 arg2 : ℤ)
  | loadNulls (trg : ℕ)
  | unary (op : SQOpcode) (hop : op ∈ unaryOps) (trg src : ℕ) (diff : ℤ)
  | binary (op : SQOpcode) (hop : op ∈ binaryOps) (trg p1 p2 : ℕ) (p3 : ℤ)
    (hp3 : op = .EQ ∨ op = .NE → p3 = 0)
  /-- `&&`, or `||` for `isOr` -/
  | logical (isOr : Bool) (trg first_exp : ℕ)
  /-- `EmitDerefOp` -/
  | deref (op : SQOpcode) (hop : op = .SET ∨ op = .NEWSLOT) (trg src key val : ℕ)
  | newSlot (table key val : ℕ)
  /-- of a class, with the register of the attributes -/
  | newSlotA (isstatic : Bool) (attrs : Option ℕ) (table key val : ℕ)
  | compArith (trg src key val : ℕ) (oper : ℤ)
  | setOuter (trg : ℕ) (pos : ℤ) (src : ℕ)
  | prepCall (closure key table ttarget : ℕ)
  | call (trg closure stackbase : ℕ) (nargs : ℤ)
  | newArray (trg : ℕ)
  | newTable (trg : ℕ)
  | newClass (trg : ℕ) (base attrs : Option ℕ)
  | appendArray (array val : ℕ)
  | foreach (container indexpos : ℕ)
  | postForeach (container indexpos : ℕ)

/-- An optional register, `-1` for none. -/
def orMinusOne (r : Option ℕ) : ℤ := (r.map fun r : ℕ => (r : ℤ)).getD (-1)

namespace Site

def instruction : Site → SQInstruction
  | line n => .ofArgs none .LINE 0 n 0 0
  | jump offset => .ofArgs none .JMP 0 offset 0 0
  | pushTrap => .ofArgs none .PUSHTRAP 0 0 0 0
  | popTrap ntraps => .ofArgs none .POPTRAP ntraps 0 0 0
  | close stacksize => .ofArgs none .CLOSE 0 stacksize 0 0
  | leave op _ (some exp) stacksize => .ofArgs none op 1 exp stacksize 0
  | leave op _ none stacksize => .ofArgs none op 0xFF 0 stacksize 0
  | target op _ trg arg1 arg2 => .ofArgs none op trg arg1 arg2 0
  | loadNulls trg => .ofArgs none .LOADNULLS trg 1 0 0
  | unary op _ trg src diff => .ofArgs none op trg src 0 diff
  | binary op _ trg p1 p2 p3 _ => .ofArgs none op trg p1 p2 p3
  | logical isOr trg first_exp => .ofArgs none (if isOr then .OR else .AND) trg 0 first_exp 0
  | deref op _ trg src key val => .ofArgs none op trg src key val
  | newSlot table key val => .ofArgs none .NEWSLOT 0xFF table key val
  | newSlotA isstatic attrs table key val =>
    .ofArgs none .NEWSLOTA ((if attrs.isSome then 1 else 0) + (if isstatic then 2 else 0)) table key
      val
  | compArith trg src key val oper =>
    .ofArgs none .COMPARITH trg (packCompArith src val) key oper
  | setOuter trg pos src => .ofArgs none .SETOUTER trg pos src 0
  | prepCall closure key table ttarget => .ofArgs none .PREPCALL closure key table ttarget
  | call trg closure stackbase nargs => .ofArgs none .CALL trg closure stackbase nargs
  | newArray trg => .ofArgs none .NEWOBJ trg 0 0 1
  | newTable trg => .ofArgs none .NEWOBJ trg 0 0 0
  | newClass trg base attrs => .ofArgs none .NEWOBJ trg (orMinusOne base) (orMinusOne attrs) 2
  | appendArray array val => .ofArgs none .APPENDARRAY array val 0 0
  | foreach container indexpos => .ofArgs none .FOREACH container 0 indexpos 0
  | postForeach container indexpos => .ofArgs none .POSTFOREACH container 0 indexpos 0

/-- The registers that the compiler puts in the operands, in the order of
`SQInstruction.operands` -/
def operands : Site → List ℕ
  | line _ | jump _ | popTrap _ => []
  -- the register of the exception is filled in later
  | pushTrap => [0]
  | close stacksize => [stacksize]
  | leave _ _ (some exp) _ => [exp]
  -- `_OP_YIELD` reads the register of a value that is not there
  | leave op _ none _ => if op = .YIELD then [0] else []
  | target _ _ trg _ _ | loadNulls trg | newArray trg | newTable trg => [trg]
  | unary _ _ trg src _ => [trg, src]
  | binary _ _ trg p1 p2 _ _ => [trg, p1, p2]
  | logical _ trg first_exp => [trg, first_exp]
  | deref _ _ trg src key val => [trg, src, key, val]
  | newSlot table key val | newSlotA _ _ table key val => [table, key, val]
  | compArith trg src key val _ => [trg, src, key, val]
  | setOuter trg _ src => [trg, src]
  | prepCall closure key table ttarget => [closure, key, table, ttarget]
  | call trg closure stackbase _ => [trg, closure, stackbase]
  | newClass trg base attrs => trg :: (base.toList ++ attrs.toList)
  | appendArray array val => [array, val]
  -- the value and the iterator follow the index
  | foreach container indexpos => [container, indexpos, indexpos + 1, indexpos + 2]
  | postForeach container _ => [container]

/-- The registers the compiler means: those of the operands, and the one of the attributes -/
def registers : Site → List ℕ
  | newSlotA _ attrs table key val => [table, key, val] ++ attrs.toList
  | s => s.operands

/-- `assert((hasattrs && (attrs == key-1)) || !hasattrs)` -/
def AttributesBelow : Site → Prop
  | newSlotA _ attrs _ key _ => ∀ a ∈ attrs, key = a + 1
  | _ => True

end Site

section Packing

variable {src val : ℕ} (hsrc : src < 2 ^ 16) (hval : val < 2 ^ 16)
include hsrc hval

theorem toNat_packCompArith :
    (BitVec.ofInt 32 (packCompArith src val)).toNat = src * 2 ^ 16 + val := by
  rw [packCompArith, ← Nat.shiftLeft_add_eq_or_of_lt hval, Nat.shiftLeft_eq, BitVec.ofInt_natCast,
    BitVec.toNat_ofNat]
  omega

/-- `_OP_COMPARITH` gets its source back. -/
theorem compArithSource_pack : compArithSource (packCompArith src val) = src := by
  have hmask : (0xFFFF0000#32 >>> 16).toNat = 2 ^ 16 - 1 := rfl
  rw [compArithSource, BitVec.ushiftRight_and_distrib, BitVec.toNat_and,
    BitVec.toNat_ushiftRight, toNat_packCompArith hsrc hval, hmask,
    Nat.and_two_pow_sub_one_eq_mod, Nat.shiftRight_eq_div_pow]
  omega

/-- `_OP_COMPARITH` gets its value back. -/
theorem compArithValue_pack : compArithValue (packCompArith src val) = val := by
  have hmask : (0x0000FFFF#32).toNat = 2 ^ 16 - 1 := rfl
  rw [compArithValue, BitVec.toNat_and, toNat_packCompArith hsrc hval, hmask,
    Nat.and_two_pow_sub_one_eq_mod]
  omega

end Packing

section Encoding

variable {r : ℕ}

theorem cast_emod_byte (h : r < 255) : (r : ℤ) % 256 = r := by omega

theorem toNat_ofInt (h : r < 255) : ((BitVec.ofInt 8 (r : ℤ)).toNat : ℤ) = r := by
  rw [BitVec.ofInt_natCast, BitVec.toNat_ofNat]
  exact cast_emod_byte h

theorem byteTarget_ofNat (h : r < 255) : byteTarget (.ofNat 8 r) = [(r : ℤ)] := by
  have hr : (BitVec.ofNat 8 r).toNat = r := by
    rw [BitVec.toNat_ofNat]
    omega
  have hne : BitVec.ofNat 8 r ≠ 0xFF := by
    intro heq
    have hr' := congrArg BitVec.toNat heq
    rw [hr] at hr'
    exact absurd hr' h.ne
  rw [byteTarget, if_neg hne, hr]

private theorem byteTarget_orMinusOne {r : Option ℕ} (h : ∀ n ∈ r, n < 255) :
    byteTarget (.ofInt 8 (orMinusOne r)) = r.toList.map fun n : ℕ => (n : ℤ) := by
  cases r with
  | none => rfl
  | some r =>
    rw [orMinusOne, Option.map_some, Option.getD_some, BitVec.ofInt_natCast]
    exact byteTarget_ofNat (h r rfl)

section Shapes

variable {i : SQInstruction}

private theorem SQInstruction.operands_target (h : i.op ∈ targetOps) : i.operands = [i.reg0] := by
  unfold operands
  revert h
  cases i.op <;> simp [targetOps]

private theorem SQInstruction.operands_unary (h : i.op ∈ unaryOps) :
    i.operands = [i.reg0, i.arg1] := by
  unfold operands
  revert h
  cases i.op <;> simp [unaryOps]

private theorem SQInstruction.operands_binary (h : i.op ∈ binaryOps)
    (h3 : i.op = .EQ ∨ i.op = .NE → i.arg3 = 0) : i.operands = [i.reg0, i.arg1, i.reg2] := by
  unfold operands
  revert h h3
  cases i.op <;> simp +contextual [binaryOps]

private theorem SQInstruction.operands_deref (h : i.op = .SET ∨ i.op = .NEWSLOT) :
    i.operands = byteTarget i.arg0 ++ [i.arg1, i.reg2, i.reg3] := by
  unfold operands
  obtain h | h := h <;> rw [h]

end Shapes

/-- The operands of the instruction hold the registers that the compiler puts there. -/
theorem Site.operands_instruction (s : Site) (h : ∀ r ∈ s.operands, r < 255) :
    s.instruction.operands = s.operands.map fun n : ℕ => (n : ℤ) := by
  cases s with
  | leave op hop exp stacksize =>
    obtain rfl | rfl := hop <;> cases exp <;> rfl
  | newClass trg base attrs =>
    simp only [Site.operands, List.mem_cons, List.mem_append, Option.mem_toList] at h
    have htrg := cast_emod_byte (h trg (.inl rfl))
    have hattrs := byteTarget_orMinusOne fun n hn => h n (.inr (.inr hn))
    have hbase : ∀ n : ℕ, (n : ℤ) ≠ -1 := by omega
    cases base <;>
      simp [Site.instruction, Site.operands, SQInstruction.ofArgs, SQInstruction.operands,
        SQInstruction.reg0, orMinusOne, htrg, hbase] <;>
      exact hattrs
  | logical isOr trg first_exp =>
    cases isOr <;>
      simp_all [Site.instruction, Site.operands, SQInstruction.ofArgs, SQInstruction.operands,
        SQInstruction.reg0, SQInstruction.reg2, cast_emod_byte]
  | binary op hop trg p1 p2 p3 hp3 =>
    have h3 : op = .EQ ∨ op = .NE → BitVec.ofInt 8 p3 = 0 := fun h => by rw [hp3 h]; rfl
    rw [SQInstruction.operands_binary hop h3]
    simp_all [Site.instruction, Site.operands, SQInstruction.ofArgs, SQInstruction.reg0,
      SQInstruction.reg2, cast_emod_byte]
  | unary op hop trg src diff =>
    rw [SQInstruction.operands_unary hop]
    simp_all [Site.instruction, Site.operands, SQInstruction.ofArgs, SQInstruction.reg0,
      cast_emod_byte]
  | target op hop trg arg1 arg2 =>
    rw [SQInstruction.operands_target hop]
    simp_all [Site.instruction, Site.operands, SQInstruction.ofArgs, SQInstruction.reg0,
      cast_emod_byte]
  | deref op hop trg src key val =>
    rw [SQInstruction.operands_deref hop]
    simp_all [Site.instruction, Site.operands, SQInstruction.ofArgs, SQInstruction.reg2,
      SQInstruction.reg3, cast_emod_byte, byteTarget_ofNat]
  | compArith trg src key val oper =>
    simp only [Site.operands, List.mem_cons, List.not_mem_nil, or_false] at h
    have hsrc : src < 255 := h src (.inr (.inl rfl))
    have hval : val < 255 := h val (.inr (.inr (.inr rfl)))
    have hle : 255 ≤ 2 ^ 16 := by decide
    simp_all [Site.instruction, Site.operands, SQInstruction.ofArgs, SQInstruction.operands,
      SQInstruction.reg0, SQInstruction.reg2, cast_emod_byte,
      compArithSource_pack (hsrc.trans_le hle) (hval.trans_le hle),
      compArithValue_pack (hsrc.trans_le hle) (hval.trans_le hle)]
  | newSlotA isstatic attrs table key val =>
    simp_all [Site.instruction, Site.operands, SQInstruction.ofArgs, SQInstruction.operands,
      SQInstruction.reg2, SQInstruction.reg3, cast_emod_byte]
  | newSlot table key val =>
    have hnone : byteTarget 255#8 = [] := rfl
    simp_all [Site.instruction, Site.operands, SQInstruction.ofArgs, SQInstruction.operands,
      SQInstruction.reg2, SQInstruction.reg3, cast_emod_byte]
  | _ =>
    simp_all [Site.instruction, Site.operands, SQInstruction.ofArgs, SQInstruction.operands,
      SQInstruction.reg0, SQInstruction.reg2, SQInstruction.reg3, cast_emod_byte, byteTarget_ofNat]

theorem Site.operands_subset (s : Site) : ∀ r ∈ s.operands, r ∈ s.registers := by
  intro r hr
  cases s with
  | newSlotA isstatic attrs table key val => exact List.mem_append_left _ hr
  | _ => exact hr

/-- The instruction has the attributes that the compiler has. -/
theorem Site.hasAttributes_newSlotA (isstatic : Bool) (attrs : Option ℕ) (table key val : ℕ) :
    (newSlotA isstatic attrs table key val).instruction.HasAttributes ↔ attrs.isSome = true := by
  have hflags : ∀ a b : Bool, BitVec.ofInt 8 ((if a then 1 else 0) + (if b then 2 else 0)) &&& 0x01 ≠ 0 ↔
      a = true := by decide
  exact hflags attrs.isSome isstatic

private theorem targetOps_plain : ∀ op ∈ targetOps, op ∉ [.CALL, .TAILCALL, .NEWSLOTA] := by decide

private theorem unaryOps_plain : ∀ op ∈ unaryOps, op ∉ [.CALL, .TAILCALL, .NEWSLOTA] := by decide

private theorem binaryOps_plain : ∀ op ∈ binaryOps, op ∉ [.CALL, .TAILCALL, .NEWSLOTA] := by decide

private theorem Site.registers_call_iff {trg closure stackbase : ℕ} {nargs : ℤ}
    (h : ∀ r ∈ (call trg closure stackbase nargs).registers, r < 255) :
    (call trg closure stackbase nargs).instruction.registers =
        (call trg closure stackbase nargs).registers.map (fun n : ℕ => (n : ℤ)) ↔
      ¬(call trg closure stackbase nargs).instruction.IsFarCall ∧
        (call trg closure stackbase nargs).AttributesBelow := by
  have hops := (call trg closure stackbase nargs).operands_instruction fun r hr =>
    h r (operands_subset _ r hr)
  have htrg : (BitVec.ofNat 8 trg).toNat = trg := by
    have hlt := h trg List.mem_cons_self
    rw [BitVec.toNat_ofNat]
    omega
  have hcall : (call trg closure stackbase nargs).instruction.op ∈ [.CALL, .TAILCALL] :=
    List.mem_cons_self
  have harg0 : (call trg closure stackbase nargs).instruction.arg0 = BitVec.ofNat 8 trg :=
    BitVec.ofInt_natCast 8 trg
  have hne : BitVec.ofNat 8 trg ≠ 0xFF := by
    intro heq
    rw [← BitVec.toNat_inj, htrg] at heq
    exact absurd heq (h trg List.mem_cons_self).ne
  have hbelow : (call trg closure stackbase nargs).AttributesBelow := trivial
  rw [and_iff_left hbelow]
  by_cases hnear : trg < 128
  · have hfar : ¬(call trg closure stackbase nargs).instruction.IsFarCall := by
      rintro ⟨-, hle, -⟩
      rw [harg0, htrg] at hle
      omega
    refine iff_of_true ?_ hfar
    rw [SQInstruction.registers_near hcall (by rwa [harg0, htrg])]
    exact hops
  · refine iff_of_false (fun heq => ?_) fun hfar => hfar ⟨hcall, ?_, ?_⟩
    · rw [SQInstruction.registers_call hcall, harg0, if_neg hne] at heq
      have hneg : (BitVec.ofNat 8 trg).toInt < 0 := SQInstruction.toInt_neg_of_le (by omega)
      have htarget : (BitVec.ofNat 8 trg).toInt = trg := (List.cons.inj heq).1
      omega
    · rw [harg0, htrg]
      omega
    · rwa [harg0]

private theorem Site.registers_newSlotA_iff {isstatic : Bool} {attrs : Option ℕ} {table key val : ℕ}
    (h : ∀ r ∈ (newSlotA isstatic attrs table key val).registers, r < 255) :
    (newSlotA isstatic attrs table key val).instruction.registers =
        (newSlotA isstatic attrs table key val).registers.map (fun n : ℕ => (n : ℤ)) ↔
      ¬(newSlotA isstatic attrs table key val).instruction.IsFarCall ∧
        (newSlotA isstatic attrs table key val).AttributesBelow := by
  have hops := (newSlotA isstatic attrs table key val).operands_instruction fun r hr =>
    h r (operands_subset _ r hr)
  have hfar : ¬(newSlotA isstatic attrs table key val).instruction.IsFarCall :=
    fun hfar => absurd hfar.1 (show SQOpcode.NEWSLOTA ∉ [.CALL, .TAILCALL] by decide)
  have hregs : (newSlotA isstatic attrs table key val).instruction.registers =
      [table, key, val].map (fun n : ℕ => (n : ℤ)) ++
        if attrs.isSome = true then [(key : ℤ) - 1] else [] := by
    have hreg2 : (newSlotA isstatic attrs table key val).instruction.reg2 = key :=
      toNat_ofInt (h key (List.mem_cons_of_mem _ List.mem_cons_self))
    rw [SQInstruction.registers_newSlotA rfl, hops, hreg2]
    simp only [hasAttributes_newSlotA]
    rfl
  rw [and_iff_right hfar, hregs, registers, List.map_append, List.append_right_inj]
  cases attrs with
  | none => exact iff_of_true rfl fun a ha => by cases ha
  | some a =>
    simp only [Option.isSome_some, if_true, Option.toList_some, List.map_cons, List.map_nil,
      List.cons.injEq, and_true, AttributesBelow, Option.mem_def, Option.some.injEq,
      forall_eq']
    omega

/-- `Execute` uses the registers that the compiler means if and only if a call has its target where
`sarg0` is not negative, and attributes are in the register below their key. -/
theorem Site.registers_instruction (s : Site) (h : ∀ r ∈ s.registers, r < 255) :
    s.instruction.registers = s.registers.map (fun n : ℕ => (n : ℤ)) ↔
      ¬s.instruction.IsFarCall ∧ s.AttributesBelow := by
  have hops := s.operands_instruction fun r hr => h r (s.operands_subset r hr)
  have hplain : s.instruction.op ∉ [.CALL, .TAILCALL, .NEWSLOTA] →
      s.registers = s.operands → s.AttributesBelow →
      (s.instruction.registers = s.registers.map (fun n : ℕ => (n : ℤ)) ↔
        ¬s.instruction.IsFarCall ∧ s.AttributesBelow) := by
    intro hop hregs hbelow
    have hcall : s.instruction.op ∉ [.CALL, .TAILCALL] := by
      intro hmem
      simp only [List.mem_cons, List.not_mem_nil, or_false] at hmem hop
      exact hop (hmem.imp_right .inl)
    have hattrs : s.instruction.op ≠ .NEWSLOTA := by
      intro heq
      rw [heq] at hop
      exact absurd hop (by decide)
    refine iff_of_true ?_ ⟨fun hfar => hcall hfar.1, hbelow⟩
    rw [SQInstruction.registers_plain hcall hattrs, hops, hregs]
  cases s with
  | call trg closure stackbase nargs => exact registers_call_iff h
  | newSlotA isstatic attrs table key val => exact registers_newSlotA_iff h
  | leave op hop exp stacksize =>
    obtain rfl | rfl := hop
    · cases exp <;> exact hplain (show SQOpcode.RETURN ∉ _ by decide) rfl trivial
    · cases exp <;> exact hplain (show SQOpcode.YIELD ∉ _ by decide) rfl trivial
  | target op hop trg arg1 arg2 => exact hplain (targetOps_plain op hop) rfl trivial
  | unary op hop trg src diff => exact hplain (unaryOps_plain op hop) rfl trivial
  | binary op hop trg p1 p2 p3 hp3 => exact hplain (binaryOps_plain op hop) rfl trivial
  | logical isOr trg first_exp =>
    cases isOr
    · exact hplain (show SQOpcode.AND ∉ _ by decide) rfl trivial
    · exact hplain (show SQOpcode.OR ∉ _ by decide) rfl trivial
  | deref op hop trg src key val =>
    obtain rfl | rfl := hop
    · exact hplain (show SQOpcode.SET ∉ _ by decide) rfl trivial
    · exact hplain (show SQOpcode.NEWSLOT ∉ _ by decide) rfl trivial
  | line n => exact hplain (show SQOpcode.LINE ∉ _ by decide) rfl trivial
  | jump offset => exact hplain (show SQOpcode.JMP ∉ _ by decide) rfl trivial
  | pushTrap => exact hplain (show SQOpcode.PUSHTRAP ∉ _ by decide) rfl trivial
  | popTrap ntraps => exact hplain (show SQOpcode.POPTRAP ∉ _ by decide) rfl trivial
  | close stacksize => exact hplain (show SQOpcode.CLOSE ∉ _ by decide) rfl trivial
  | loadNulls trg => exact hplain (show SQOpcode.LOADNULLS ∉ _ by decide) rfl trivial
  | newSlot table key val => exact hplain (show SQOpcode.NEWSLOT ∉ _ by decide) rfl trivial
  | compArith trg src key val oper =>
    exact hplain (show SQOpcode.COMPARITH ∉ _ by decide) rfl trivial
  | setOuter trg pos src => exact hplain (show SQOpcode.SETOUTER ∉ _ by decide) rfl trivial
  | prepCall closure key table ttarget =>
    exact hplain (show SQOpcode.PREPCALL ∉ _ by decide) rfl trivial
  | newArray trg | newTable trg | newClass trg base attrs =>
    exact hplain (show SQOpcode.NEWOBJ ∉ _ by decide) rfl trivial
  | appendArray array val => exact hplain (show SQOpcode.APPENDARRAY ∉ _ by decide) rfl trivial
  | foreach container indexpos => exact hplain (show SQOpcode.FOREACH ∉ _ by decide) rfl trivial
  | postForeach container indexpos =>
    exact hplain (show SQOpcode.POSTFOREACH ∉ _ by decide) rfl trivial

theorem Site.attributesBelow_of_isFarCall {s : Site} (h : s.instruction.IsFarCall) :
    s.AttributesBelow := by
  cases s with
  | newSlotA isstatic attrs table key val =>
    exact absurd h.1 (show SQOpcode.NEWSLOTA ∉ [.CALL, .TAILCALL] by decide)
  | _ => trivial

end Encoding

section Fusing

/-- What the optimizer leaves of the two instructions. -/
def Fused.instructions : Fused → List SQInstruction
  | .keep pi i => [pi, i]
  | .merge pi _ => [pi]

/-- A `_OP_JZ` on register 0 that goes through the case of `_OP_SET` as well. -/
def BlanksCondition (pi i : SQInstruction) : Prop :=
  i.op = .JZ ∧ i.arg0 = i.arg3 ∧ ¬(pi.op = .CMP ∧ pi.arg1 < 0xFF)

/-- `j` has no register that neither `pi` nor `i` has. -/
def OperandsFrom (pi i j : SQInstruction) : Prop :=
  ∀ r ∈ j.operands, r ∈ pi.operands ∨ r ∈ i.operands

variable {pi i : SQInstruction}

/-- A register that moves from the wide operand into a byte. -/
theorem toNat_ofInt_of_mem {r : ℤ} (h : i.OperandsInRange) (hr : r ∈ i.operands) :
    ((BitVec.ofInt 8 r).toNat : ℤ) = r := by
  obtain ⟨h0, h255⟩ := h r hr
  obtain ⟨n, rfl⟩ := Int.eq_ofNat_of_zero_le h0
  have hn : n < 255 := by exact_mod_cast h255
  exact toNat_ofInt hn

private theorem operandsFrom_keep {i' : SQInstruction} (h : OperandsFrom pi i i') :
    ∀ j ∈ (Fused.keep pi i').instructions, OperandsFrom pi i j := by
  intro j hj r hr
  simp only [Fused.instructions, List.mem_cons, List.not_mem_nil, or_false] at hj
  obtain rfl | rfl := hj
  · exact .inl hr
  · exact h r hr

private theorem operandsFrom_merge {pi' : SQInstruction} {b : Bool} (h : OperandsFrom pi i pi') :
    ∀ j ∈ (Fused.merge pi' b).instructions, OperandsFrom pi i j := by
  intro j hj
  rw [Fused.instructions, List.mem_singleton] at hj
  exact hj ▸ h

private theorem operandsFrom_self : OperandsFrom pi i i := fun _ hr => .inr hr

/-- What has no need of its target does without it. -/
theorem operands_blank (h : i.op ∈ [.SET, .NEWSLOT, .SETOUTER, .CALL]) :
    ∀ r ∈ { i with arg0 := 0xFF }.operands, r ∈ i.operands := by
  intro r hr
  have hnone : byteTarget 255#8 = [] := rfl
  simp only [List.mem_cons, List.not_mem_nil, or_false] at h
  obtain h | h | h | h := h <;>
    simp_all [SQInstruction.operands, SQInstruction.reg2, SQInstruction.reg3]

/-- The instruction before a `_OP_MOVE` writes to its target. -/
theorem operandsFrom_move (hop : i.op = .MOVE)
    (h : pi.op ∈ [.GET, .ADD, .SUB, .MUL, .DIV, .MOD, .BITW, .LOADINT, .LOADFLOAT, .LOADBOOL,
      .LOAD]) : OperandsFrom pi i { pi with arg0 := i.arg0 } := by
  intro r hr
  simp only [List.mem_cons, List.not_mem_nil, or_false] at h
  obtain h | h | h | h | h | h | h | h | h | h | h := h <;>
    simp only [SQInstruction.operands, SQInstruction.reg0, SQInstruction.reg2, h, hop,
      List.mem_cons, List.not_mem_nil, or_false] at hr ⊢ <;>
    tauto

/-- One more register is set to null. -/
theorem operandsFrom_loadNulls (hop : i.op = .LOADNULLS) (hpi : pi.op = .LOADNULLS)
    (h : (pi.arg0.toNat : ℤ) + pi.arg1 = i.arg0.toNat) :
    OperandsFrom pi i { pi with arg1 := pi.arg1 + 1 } := by
  intro r hr
  simp only [SQInstruction.operands, hop, hpi, SQInstruction.reg0, List.mem_map,
    List.mem_range] at hr ⊢
  obtain ⟨n, hn, rfl⟩ := hr
  by_cases hlast : n < max 1 pi.arg1.toNat
  · exact .inl ⟨n, hlast, rfl⟩
  · exact .inr ⟨0, by omega, by omega⟩

private theorem appendArrayType_ne_zero {op : SQOpcode} {aat : BitVec 8}
    (h : appendArrayType op = some aat) : aat ≠ 0 := by
  revert h
  cases op <;> simp [appendArrayType] <;> rintro rfl <;> decide

/-- The optimizer makes up no register of its own, but for a `_OP_JZ` on register 0. -/
theorem fuse_operands (fs : SQFuncState) (hpi : pi.OperandsInRange) (hi : i.OperandsInRange)
    (hz : ¬BlanksCondition pi i) :
    ∀ j ∈ (fs.fuse pi i).instructions, OperandsFrom pi i j := by
  have hkeep : ∀ j ∈ (Fused.keep pi i).instructions, OperandsFrom pi i j :=
    operandsFrom_keep operandsFrom_self
  unfold SQFuncState.fuse
  split
  case h_1 hop =>
    split_ifs with h h'
    · refine operandsFrom_merge fun r hr => .inl ?_
      have hregs : pi.operands = [pi.reg0, pi.arg1, pi.reg2] := by
        simp only [SQInstruction.operands, h.1]
      have hmem := toNat_ofInt_of_mem hpi (r := pi.arg1) (by simp [hregs])
      simp only [SQInstruction.operands, SQInstruction.reg0, hmem] at hr
      rw [hregs]
      exact List.mem_cons_of_mem _ hr
    · exact absurd ⟨hop, h', h⟩ hz
    · exact hkeep
  case h_2 hop | h_3 hop | h_4 hop =>
    split_ifs
    · exact operandsFrom_keep fun r hr => .inr (operands_blank (by simp [hop]) r hr)
    · exact hkeep
  case h_5 hop =>
    split_ifs with h h'
    · intro j hj r hr
      simp only [Fused.instructions, List.mem_cons, List.not_mem_nil, or_false] at hj
      obtain rfl | rfl := hj
      · exact .inl (by simpa only [SQInstruction.operands, SQInstruction.reg2, h.2.2.1] using hr)
      · exact .inr hr
    · exact operandsFrom_merge operandsFrom_self
    · exact hkeep
  case h_6 hop =>
    split_ifs with h
    · refine operandsFrom_merge fun r hr => .inr ?_
      have hregs : i.operands = [i.reg0, i.arg1, i.reg2] := by
        simp only [SQInstruction.operands, hop]
      have hmem := toNat_ofInt_of_mem hi (r := i.arg1) (by simp [hregs])
      simp only [SQInstruction.operands, SQInstruction.reg0, SQInstruction.reg2, hmem] at hr
      rw [hregs]
      exact List.mem_append_left [i.reg2] hr
    · exact hkeep
  case h_7 hop =>
    split_ifs with h
    · refine operandsFrom_merge fun r hr => .inr ?_
      have hregs : i.operands = [i.reg0, i.arg1, i.reg2, i.reg3] := by
        simp only [SQInstruction.operands, hop]
      simp only [SQInstruction.operands] at hr
      rw [hregs]
      simp only [List.mem_cons] at hr ⊢
      tauto
    · exact hkeep
  case h_8 hop =>
    split
    · rename_i aat haat
      split_ifs
      · refine operandsFrom_merge fun r hr => .inr ?_
        have haat0 : aat ≠ 0 := appendArrayType_ne_zero haat
        simp only [SQInstruction.operands, haat0, if_false, List.mem_singleton] at hr
        simp only [SQInstruction.operands, hop]
        split_ifs <;> exact hr ▸ List.mem_cons_self
      · exact hkeep
    · exact hkeep
  case h_9 hop =>
    split_ifs with h h'
    · exact operandsFrom_merge (operandsFrom_move hop h.1)
    · refine operandsFrom_merge fun r hr => ?_
      have hregs : i.operands = [i.reg0, i.arg1] := by simp only [SQInstruction.operands, hop]
      have hmem := toNat_ofInt_of_mem hi (r := i.arg1) (by simp [hregs])
      have hregs' : pi.operands = [pi.reg0, pi.arg1] := by simp only [SQInstruction.operands, h']
      simp only [SQInstruction.operands, SQInstruction.reg3, hmem] at hr
      rw [hregs, hregs', ← List.mem_append]
      exact hr
    · exact hkeep
  case h_10 hop =>
    split_ifs with h
    · refine operandsFrom_merge fun r hr => ?_
      simp only [SQInstruction.operands, h.1, hop, ← List.mem_append] at hr ⊢
      exact hr
    · exact hkeep
  case h_11 hop | h_12 hop =>
    split_ifs with h
    · refine operandsFrom_merge fun r hr => .inr ?_
      have hliteral : (0xFF : BitVec 8) ≠ 0 := by decide
      simp only [SQInstruction.operands, hop, hliteral, if_false] at hr ⊢
      split_ifs
      · simp only [List.mem_cons] at hr ⊢
        tauto
      · exact hr
    · exact hkeep
  case h_13 hop =>
    split_ifs with h
    · exact operandsFrom_merge (operandsFrom_loadNulls hop h.1 h.2)
    · exact hkeep
  case h_14 hop =>
    split_ifs with h
    · exact operandsFrom_merge operandsFrom_self
    · exact hkeep
  case h_15 => exact hkeep

theorem not_isStray (h : i.op ∉ [.CALL, .TAILCALL, .NEWSLOTA]) : ¬i.IsStray := by
  simp only [List.mem_cons, List.not_mem_nil, or_false, not_or] at h
  rintro (hfar | hattrs)
  · have hop := hfar.1
    simp only [List.mem_cons, List.not_mem_nil, or_false] at hop
    exact hop.elim h.1 h.2.1
  · exact h.2.2 hattrs.1

/-- What `IsStray` is of the two instructions that the optimizer leaves, or of the one -/
def StrayFrom (pi i : SQInstruction) : Fused → Prop
  | .keep pi' i' => (pi'.IsStray ↔ pi.IsStray) ∧ (i'.IsStray → i' = i)
  | .merge pi' _ => ¬pi.IsStray ∧ ¬pi'.IsStray

/-- The optimizer merges no call, and keeps the target of one. -/
theorem fuse_stray (fs : SQFuncState) : StrayFrom pi i (fs.fuse pi i) := by
  have hkeep : StrayFrom pi i (.keep pi i) := ⟨Iff.rfl, fun _ => rfl⟩
  have hblank : ∀ op ∉ [.CALL, .TAILCALL, .NEWSLOTA], i.op = op →
      StrayFrom pi i (.keep pi { i with arg0 := 0xFF }) := fun op hop heq =>
    ⟨Iff.rfl, fun h => absurd h (not_isStray (by rwa [heq]))⟩
  have hmerge : ∀ op op' b, op ∉ [.CALL, .TAILCALL, .NEWSLOTA] →
      op' ∉ [.CALL, .TAILCALL, .NEWSLOTA] → pi.op = op → ∀ pi' : SQInstruction, pi'.op = op' →
        StrayFrom pi i (.merge pi' b) := fun op op' b hop hop' heq pi' heq' =>
    ⟨not_isStray (by rwa [heq]), not_isStray (by rwa [heq'])⟩
  unfold SQFuncState.fuse
  split
  case h_1 hop =>
    split_ifs with h
    · exact hmerge .CMP .JCMP true (by decide) (by decide) h.1 _ rfl
    · exact hblank .JZ (by decide) hop
    · exact hkeep
  case h_2 hop | h_3 hop | h_4 hop =>
    split_ifs
    · exact hblank _ (by decide) hop
    · exact hkeep
  case h_5 hop =>
    split_ifs with h h'
    · refine ⟨?_, fun _ => rfl⟩
      have hcall := h.2.2.1
      simp [SQInstruction.IsStray, SQInstruction.IsFarCall, hcall]
    · exact hmerge .CLOSE .RETURN true (by decide) (by decide) h' _ hop
    · exact hkeep
  case h_6 =>
    split_ifs with h
    · exact hmerge .LOAD .GETK true (by decide) (by decide) h.1 _ rfl
    · exact hkeep
  case h_7 =>
    split_ifs with h
    · exact hmerge .LOAD .PREPCALLK true (by decide) (by decide) h.1 _ rfl
    · exact hkeep
  case h_8 =>
    split
    · rename_i aat haat
      split_ifs
      · refine ⟨not_isStray fun hmem => ?_, not_isStray ?_⟩
        · simp only [List.mem_cons, List.not_mem_nil, or_false] at hmem
          obtain hmem | hmem | hmem := hmem <;> rw [hmem] at haat <;> cases haat
        · exact (by decide : SQOpcode.APPENDARRAY ∉ [.CALL, .TAILCALL, .NEWSLOTA])
      · exact hkeep
    · exact hkeep
  case h_9 =>
    split_ifs with h h'
    · have hplain : ∀ op ∈ [SQOpcode.GET, .ADD, .SUB, .MUL, .DIV, .MOD, .BITW, .LOADINT, .LOADFLOAT,
        .LOADBOOL, .LOAD], op ∉ [.CALL, .TAILCALL, .NEWSLOTA] := by decide
      have hpi := hplain _ h.1
      exact hmerge _ _ false hpi hpi rfl _ rfl
    · exact hmerge .MOVE .DMOVE true (by decide) (by decide) h' _ rfl
    · exact hkeep
  case h_10 =>
    split_ifs with h
    · exact hmerge .LOAD .DLOAD true (by decide) (by decide) h.1 _ rfl
    · exact hkeep
  case h_11 hop | h_12 hop =>
    split_ifs with h
    · exact hmerge .LOAD _ true (by decide) (by decide) h.1 _ hop
    · exact hkeep
  case h_13 =>
    split_ifs with h
    · exact hmerge .LOADNULLS .LOADNULLS true (by decide) (by decide) h.1 _ h.1
    · exact hkeep
  case h_14 hop =>
    split_ifs with h
    · exact hmerge .LINE .LINE true (by decide) (by decide) h _ hop
    · exact hkeep
  case h_15 => exact hkeep

/-- An instruction of the compiler with its attributes below their key is stray as a call only. -/
theorem Site.isFarCall_of_isStray {s : Site} (h : ∀ r ∈ s.registers, r < 255)
    (hbelow : s.AttributesBelow) (hstray : s.instruction.IsStray) : s.instruction.IsFarCall := by
  refine hstray.resolve_right fun hattrs => ?_
  cases s with
  | newSlotA isstatic attrs table key val =>
    obtain ⟨a, ha⟩ := Option.isSome_iff_exists.mp
      ((hasAttributes_newSlotA isstatic attrs table key val).mp hattrs.2.1)
    have hkey := hbelow a ha
    have hreg2 : (BitVec.ofInt 8 (key : ℤ)).toNat = key := by
      have hlt := h key (List.mem_cons_of_mem _ List.mem_cons_self)
      exact_mod_cast toNat_ofInt hlt
    have hzero : BitVec.ofInt 8 (key : ℤ) = 0 := hattrs.2.2
    rw [hzero] at hreg2
    change 0 = key at hreg2
    omega
  | leave op hop exp stacksize =>
    obtain rfl | rfl := hop <;> cases exp <;> cases hattrs.1
  | logical isOr trg first_exp => cases isOr <;> cases hattrs.1
  | target op hop trg arg1 arg2 =>
    obtain rfl : op = .NEWSLOTA := hattrs.1
    exact absurd hop (by decide)
  | unary op hop trg src diff =>
    obtain rfl : op = .NEWSLOTA := hattrs.1
    exact absurd hop (by decide)
  | binary op hop trg p1 p2 p3 hp3 =>
    obtain rfl : op = .NEWSLOTA := hattrs.1
    exact absurd hop (by decide)
  | deref op hop trg src key val => obtain rfl | rfl := hop <;> cases hattrs.1
  | _ => cases hattrs.1

end Fusing

end Squirt.SQCompiler
