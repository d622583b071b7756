import Mathlib.Data.List.Infix
import Squirt.ClosureStream

/-!
# The control-flow graph of the JIT

The blocks `SqJitEngine::EmitInstructions` builds, and where `Execute` goes from the same
instructions. What an instruction computes is not here but for the value that a branch tests.
-/

namespace Squirt.SqJitEngine

open ClosureStream (SQInstruction)

def _OP_CALL : BitVec 8 := 0x06#8
def _OP_RETURN : BitVec 8 := 0x17#8
def _OP_JMP : BitVec 8 := 0x1C#8
def _OP_JCMP : BitVec 8 := 0x1D#8
def _OP_JZ : BitVec 8 := 0x1E#8

/-- A jump of `Execute` that the JIT has as well. -/
def IsJump (i : SQInstruction) : Prop := i.op = _OP_JMP ∨ i.op = _OP_JCMP ∨ i.op = _OP_JZ

/-- A value that `IsFalse` is asked about. -/
inductive Tested
  | stk (reg : ℕ)
  | tempReg

/-- What `Execute` does at a jump: `JCMP` compares first. -/
def comparison (i : SQInstruction) : Option (ℕ × ℕ × ℕ) :=
  if i.op = _OP_JCMP then some (i.arg3.toNat, i.arg2.toNat, i.arg0.toNat) else none

/-- `ci->_ip` after instruction `n`, a jump. -/
def nextIp (isFalse : Tested → Bool) (n : ℕ) (i : SQInstruction) : ℤ :=
  let ip : ℤ := n + 1
  if i.op = _OP_JMP then ip + i.arg1.toInt
  else if i.op = _OP_JCMP then if isFalse .tempReg then ip + i.arg1.toInt else ip
  else if isFalse (.stk i.arg0.toNat) then ip + i.arg1.toInt else ip

/-- What is in a block: the code of an instruction begins with `code`. A block that is null
is `none`. -/
inductive Item
  | code (nip : ℕ)
  /-- the call of `SQ_LLVM_CMPOP_PROXY`, into `temp_reg` -/
  | cmpop (op o1 o2 : ℕ)
  | br (dest : Option ℕ)
  | condBr (cond : Tested) (ifTrue ifFalse : Option ℕ)
  /-- the branch on what the call of `_OP_CALL` returns -/
  | callBr (ifTrue ifFalse : ℕ)
  | retVoid

namespace Item

def isTerminator : Item → Bool
  | code _ | cmpop _ _ _ => false
  | _ => true

def dests : Item → List (Option ℕ)
  | br d => [d]
  | condBr _ t f => [t, f]
  | callBr t f => [some t, some f]
  | _ => []

/-- Where a branch on a test goes. -/
def next (isFalse : Tested → Bool) : Item → Option ℕ
  | br d => d
  | condBr c t f => if isFalse c then t else f
  | _ => none

end Item

/-- A block ends with its first terminator. -/
def live : List Item → List Item
  | [] => []
  | i :: is => if i.isTerminator then [i] else i :: live is

abbrev Graph := List (List Item)

/-- What runs first when control comes to a block is the code of an instruction. -/
inductive LeadsTo (g : Graph) : ℕ → ℕ → Prop
  | here {b n : ℕ} {is : List Item} (h : g[b]? = some (.code n :: is)) : LeadsTo g b n
  | br {b b' n : ℕ} {is : List Item} (h : g[b]? = some (.br (some b') :: is))
    (h' : LeadsTo g b' n) : LeadsTo g b n

/-- `m_llvmBuilder` and the function it builds. -/
structure Builder where
  blocks : Graph
  insertPoint : ℕ

namespace Builder

variable (b : Builder)

/-- `BasicBlock::Create` -/
def createBlock : Builder × ℕ := ({ b with blocks := b.blocks ++ [[]] }, b.blocks.length)

def insert (i : Item) : Builder := { b with blocks := b.blocks.modify b.insertPoint (· ++ [i]) }

def setInsertPoint (block : ℕ) : Builder := { b with insertPoint := block }

end Builder

/-- The loop that fills `jmp_blocks`. -/
def createJmpBlocks (b : Builder) : List SQInstruction → Builder × List (Option ℕ)
  | [] => (b, [])
  | i :: is =>
    if i.op = _OP_JMP then
      let (b, block) := b.createBlock
      let (b, jmp_blocks) := createJmpBlocks b is
      (b, some block :: jmp_blocks)
    else
      let (b, jmp_blocks) := createJmpBlocks b is
      (b, none :: jmp_blocks)

/-- `jmp_blocks[nip + sarg1]`; outside of `jmp_blocks` there is no block. -/
def jmpDest (jmp_blocks : List (Option ℕ)) (nip : ℕ) (i : SQInstruction) : Option ℕ :=
  let jmpip : ℤ := nip + i.arg1.toInt
  if 0 ≤ jmpip then jmp_blocks[jmpip.toNat]?.join else none

/-- The body of the loop that emits the instructions. -/
def emit (jmp_blocks : List (Option ℕ)) (bb_leave : ℕ) (b : Builder) (nip : ℕ)
    (i : SQInstruction) : Builder :=
  let b := match jmp_blocks[nip]?.join with
    | some block => b.insert (.br (some block))
    | none => b
  let b := b.insert (.code nip)
  if i.op = _OP_JMP then b.insert (.br (jmpDest jmp_blocks nip i))
  else if i.op = _OP_JCMP then
    let b := b.insert (.cmpop i.arg3.toNat i.arg2.toNat i.arg0.toNat)
    let (b, bb_goon) := b.createBlock
    b.insert (.condBr .tempReg (jmpDest jmp_blocks nip i) (some bb_goon))
  else if i.op = _OP_JZ then
    let (b, bb_goon) := b.createBlock
    b.insert (.condBr .tempReg (jmpDest jmp_blocks nip i) (some bb_goon))
  else if i.op = _OP_CALL then
    let (b, bb_goon) := b.createBlock
    (b.insert (.callBr bb_leave bb_goon)).setInsertPoint bb_goon
  else if i.op = _OP_RETURN then
    let b := b.insert (.br (some bb_leave))
    let (b, bb_gabbage) := b.createBlock
    b.setInsertPoint bb_gabbage
  else b

def emitAll (jmp_blocks : List (Option ℕ)) (bb_leave : ℕ) (b : Builder) (nip : ℕ) :
    List SQInstruction → Builder
  | [] => b
  | i :: is => emitAll jmp_blocks bb_leave (emit jmp_blocks bb_leave b nip i) (nip + 1) is

def emitInstructions (code : List SQInstruction) : Graph :=
  let (b, bb_entry) := Builder.createBlock ⟨[], 0⟩
  let (b, bb_leave) := b.createBlock
  let b := b.setInsertPoint bb_entry
  let (b, jmp_blocks) := createJmpBlocks b code
  let b := emitAll jmp_blocks bb_leave b 0 code
  let b := (b.insert (.br (some bb_leave))).setInsertPoint bb_leave
  (b.insert .retVoid).blocks

/-- The branch that ends the code of a jump. -/
structure JumpsAs (g : Graph) (n : ℕ) (i : SQInstruction) (block before : List Item)
    (branch : Item) : Prop where
  mem : block ∈ g
  code : live block = before ++ .code n ::
    (((comparison i).map fun c => .cmpop c.1 c.2.1 c.2.2).toList ++ [branch])
  next : ∀ isFalse, ∃ dest m, branch.next isFalse = some dest ∧ LeadsTo g dest m ∧
    (m : ℤ) = nextIp isFalse n i

/-- The graph follows the interpreter at its jumps, and all its branches go to blocks. -/
structure Follows (code : List SQInstruction) : Prop where
  jump : ∀ n i, code[n]? = some i → IsJump i →
    ∃ block before branch, JumpsAs (emitInstructions code) n i block before branch
  dests : ∀ block ∈ emitInstructions code, ∀ item ∈ block, ∀ d ∈ item.dests,
    ∃ b < (emitInstructions code).length, d = some b

section Blocks

variable {b : Builder} {jb : List (Option ℕ)} {code is : List SQInstruction} {i : SQInstruction}
  {items post : List Item} {n k : ℕ} {g : Graph}

private theorem live_prefix (is : List Item) : ∃ rest, is = live is ++ rest := by
  induction is with
  | nil => exact ⟨[], rfl⟩
  | cons i is ih =>
    obtain ⟨rest, hrest⟩ := ih
    rw [live]
    split_ifs
    · exact ⟨is, rfl⟩
    · exact ⟨rest, by rw [List.cons_append, ← hrest]⟩

/-- Control never gets anywhere from an empty block. -/
theorem not_leadsTo_of_empty (h : g[k]? = some []) : ¬ LeadsTo g k n := by
  intro hleads
  cases hleads with
  | here h' =>
    rw [h] at h'
    cases h'
  | br h' _ =>
    rw [h] at h'
    cases h'

/-- The items between the beginning of the code of a jump and its branch. -/
def comparisonItems (i : SQInstruction) : List Item :=
  ((comparison i).map fun c => Item.cmpop c.1 c.2.1 c.2.2).toList

/-- What follows the beginning of the code of `i`: a jump is taken to `jmpDest`. -/
def Shape (jb : List (Option ℕ)) (n : ℕ) (i : SQInstruction) (post : List Item) : Prop :=
  IsJump i → ∃ branch rest, post = comparisonItems i ++ branch :: rest ∧
    branch.next (fun _ => true) = jmpDest jb n i

theorem Shape.append (h : Shape jb n i post) (items : List Item) :
    Shape jb n i (post ++ items) := by
  intro hi
  obtain ⟨branch, rest, hpost, hnext⟩ := h hi
  exact ⟨branch, rest ++ items, by rw [hpost]; simp, hnext⟩

/-- The code of each instruction in the items has its shape. -/
def Shaped (code : List SQInstruction) (jb : List (Option ℕ)) (items : List Item) : Prop :=
  ∀ pre n post, items = pre ++ .code n :: post → ∀ i, code[n]? = some i → Shape jb n i post

theorem shaped_nil : Shaped code jb [] := by
  intro pre n post h
  cases pre <;> cases h

theorem Shaped.append {items' : List Item} (h : Shaped code jb items)
    (h' : Shaped code jb items') : Shaped code jb (items ++ items') := by
  intro pre n post heq i hi
  rcases List.append_eq_append_iff.mp heq with ⟨mid, hpre, hitems'⟩ | ⟨mid, hitems, hrest⟩
  · exact h' mid n post hitems' i hi
  · cases mid with
    | nil =>
      rw [List.nil_append] at hrest
      exact h' [] n post hrest.symm i hi
    | cons c mid =>
      rw [List.cons_append] at hrest
      cases hrest
      exact (h pre n mid hitems i hi).append items'

/-- Items without the beginning of an instruction. -/
theorem shaped_of_no_code (h : ∀ n, .code n ∉ items) : Shaped code jb items := by
  intro pre n post heq
  exact absurd (heq ▸ by simp) (h n)

/-- The code of one instruction. -/
theorem shaped_code (hi : code[n]? = some i) (hpost : ∀ m, .code m ∉ post)
    (hshape : Shape jb n i post) : Shaped code jb (.code n :: post) := by
  intro pre m post' heq j hj
  cases pre with
  | nil =>
    cases heq
    rw [hi] at hj
    cases hj
    exact hshape
  | cons c pre =>
    cases heq
    exact absurd (by simp) (hpost m)

/-- What holds of the function that is being built. -/
structure Built (code : List SQInstruction) (jb : List (Option ℕ)) (b : Builder) : Prop where
  leave : 1 < b.blocks.length
  insertPoint : b.insertPoint < b.blocks.length
  not_jmp : some b.insertPoint ∉ jb
  leave_not_jmp : some 1 ∉ jb
  empty : ∀ d, some d ∈ jb → b.blocks[d]? = some []
  shaped : ∀ block ∈ b.blocks, Shaped code jb block
  dests : (∀ i ∈ code, ¬ IsJump i) → ∀ block ∈ b.blocks, ∀ item ∈ block, ∀ d ∈ item.dests,
    ∃ t < b.blocks.length, d = some t

/-- Items in the current block, and new blocks. -/
def Builder.extend (b : Builder) (items : List Item) (k : ℕ) : Builder :=
  { b with blocks := b.blocks.modify b.insertPoint (· ++ items) ++ List.replicate k [] }

private theorem mem_modify {f : List Item → List Item} {block : List Item} {p : ℕ}
    (h : block ∈ g.modify p f) : block ∈ g ∨ ∃ block' ∈ g, block = f block' := by
  obtain ⟨m, hm⟩ := List.mem_iff_getElem?.mp h
  rw [List.getElem?_modify] at hm
  obtain ⟨block', hb, hf⟩ := Option.map_eq_some_iff.mp hm
  have hmem := List.mem_of_getElem? hb
  split_ifs at hf
  · exact .inr ⟨block', hmem, hf.symm⟩
  · exact .inl (hf ▸ hmem)

theorem Built.extend (h : Built code jb b) (hitems : Shaped code jb items)
    (hdests : (∀ i ∈ code, ¬ IsJump i) → ∀ item ∈ items, ∀ d ∈ item.dests,
      ∃ t < b.blocks.length + k, d = some t) : Built code jb (b.extend items k) := by
  have hlen : (b.extend items k).blocks.length = b.blocks.length + k := by
    simp [Builder.extend]
  have hle : b.blocks.length ≤ (b.extend items k).blocks.length := by omega
  refine ⟨h.leave.trans_le hle, h.insertPoint.trans_le hle, h.not_jmp, h.leave_not_jmp,
    fun d hd => ?_, fun block hb => ?_, fun hno block hb item hitem d hd => ?_⟩
  · have hempty := h.empty d hd
    have hne : b.insertPoint ≠ d := fun heq => h.not_jmp (heq ▸ hd)
    simp only [Builder.extend]
    rw [List.getElem?_append_left]
    · rw [List.getElem?_modify_ne _ _ hne, hempty]
    · rw [List.length_modify]
      exact (List.getElem?_eq_some_iff.mp hempty).1
  · rcases List.mem_append.mp hb with hb | hb
    · rcases mem_modify hb with hb | ⟨block', hb', rfl⟩
      · exact h.shaped block hb
      · exact (h.shaped block' hb').append hitems
    · rw [List.eq_of_mem_replicate hb]
      exact shaped_nil
  · rw [hlen]
    have hold : ∀ block' ∈ b.blocks, item ∈ block' → ∃ t < b.blocks.length + k, d = some t := by
      intro block' hb' hitem'
      obtain ⟨t, ht, rfl⟩ := h.dests hno block' hb' item hitem' d hd
      exact ⟨t, by omega, rfl⟩
    rcases List.mem_append.mp hb with hb | hb
    · rcases mem_modify hb with hb | ⟨block', hb', rfl⟩
      · exact hold block hb hitem
      · rcases List.mem_append.mp hitem with hitem | hitem
        · exact hold block' hb' hitem
        · exact hdests hno item hitem d hd
    · rw [List.eq_of_mem_replicate hb] at hitem
      cases hitem

/-- Going on in a block that is not one of `jmp_blocks`. -/
theorem Built.setInsertPoint (h : Built code jb b) (hk : k < b.blocks.length)
    (hjmp : some k ∉ jb) : Built code jb (b.setInsertPoint k) :=
  ⟨h.leave, hk, hjmp, h.leave_not_jmp, h.empty, h.shaped, h.dests⟩

/-- `jmp_blocks` are not new. -/
theorem Built.lt_of_mem (h : Built code jb b) (hk : some k ∈ jb) : k < b.blocks.length :=
  (List.getElem?_eq_some_iff.mp (h.empty k hk)).1

theorem insert_eq (b : Builder) (item : Item) : b.insert item = b.extend [item] 0 := by
  simp [Builder.insert, Builder.extend]

theorem extend_extend (b : Builder) (items items' : List Item) :
    (b.extend items 0).extend items' k = b.extend (items ++ items') k := by
  have happend : (fun block : List Item => block ++ items') ∘ (fun block => block ++ items) =
      fun block => block ++ (items ++ items') := by
    funext block
    exact List.append_assoc block items items'
  simp only [Builder.extend, List.replicate_zero, List.append_nil, List.modify_modify_eq, happend]

theorem modify_concat {f : List Item → List Item} {p : ℕ} (h : p < g.length) (x : List Item) :
    (g ++ [x]).modify p f = g.modify p f ++ [x] := by
  apply List.ext_getElem?
  intro m
  rw [List.getElem?_modify]
  rcases Nat.lt_trichotomy m g.length with hm | rfl | hm
  · rw [List.getElem?_append_left hm, List.getElem?_append_left (by simpa using hm),
      List.getElem?_modify]
  · rw [List.getElem?_concat_length, List.getElem?_append_right (by simp)]
    simp [Nat.ne_of_lt h]
  · rw [List.getElem?_eq_none (by simp; omega), List.getElem?_eq_none (by simp; omega)]
    rfl

private theorem createBlock_insert (h : b.insertPoint < b.blocks.length) (item : Item) :
    b.createBlock.1.insert item = b.extend [item] 1 := by
  simp only [Builder.insert, Builder.createBlock, Builder.extend, modify_concat h,
    List.replicate_one]

private theorem insert_createBlock (b : Builder) (item : Item) :
    (b.insert item).createBlock.1 = b.extend [item] 1 := by
  simp only [Builder.insert, Builder.createBlock, Builder.extend, List.replicate_one]

/-- The branch to the own block of a jump, before its code. -/
def ownBranch (jb : List (Option ℕ)) (n : ℕ) : List Item :=
  match jb[n]?.join with
  | some block => [.br (some block)]
  | none => []

private theorem no_code_ownBranch (m : ℕ) : .code m ∉ ownBranch jb n := by
  unfold ownBranch
  split <;> simp

/-- The own branch and the beginning of the code. -/
theorem begin_eq (jb : List (Option ℕ)) (b : Builder) (n : ℕ) :
    (match jb[n]?.join with
      | some block => b.insert (.br (some block))
      | none => b).insert (.code n) = b.extend (ownBranch jb n ++ [.code n]) 0 := by
  unfold ownBranch
  split
  · rw [insert_eq, insert_eq, extend_extend]
  · rw [insert_eq, List.nil_append]

/-- What an instruction adds: `items` after its beginning, and a block to go on in. -/
structure Adds (jb : List (Option ℕ)) (leave : ℕ) (b : Builder) (n : ℕ) (i : SQInstruction)
    (b' : Builder) (items : List Item) (k : ℕ) : Prop where
  blocks : b'.blocks = (b.extend (ownBranch jb n ++ .code n :: items) k).blocks
  insertPoint : b'.insertPoint = b.insertPoint ∨ b'.insertPoint = b.blocks.length ∧ 0 < k
  no_code : ∀ m, .code m ∉ items
  shape : Shape jb n i items
  dests : ¬ IsJump i → ∀ item ∈ items, ∀ d ∈ item.dests,
    d = some leave ∨ d = some b.blocks.length ∧ 0 < k

private theorem emit_adds (jb : List (Option ℕ)) (h : b.insertPoint < b.blocks.length) (leave : ℕ) :
    ∃ items k, Adds jb leave b n i (emit jb leave b n i) items k := by
  obtain ⟨b₁, hb₁⟩ : ∃ b₁, b₁ = b.extend (ownBranch jb n ++ [.code n]) 0 := ⟨_, rfl⟩
  have hbegin := (begin_eq jb b n).trans hb₁.symm
  have hlen : b₁.blocks.length = b.blocks.length := by simp [hb₁, Builder.extend]
  have hpoint : b₁.insertPoint = b.insertPoint := by rw [hb₁]; rfl
  have h₁ : b₁.insertPoint < b₁.blocks.length := by omega
  have hadd : ∀ items k, b₁.extend items k = b.extend (ownBranch jb n ++ .code n :: items) k := by
    intro items k
    rw [hb₁, extend_extend, List.append_assoc]
    rfl
  simp only [emit, hbegin]
  split_ifs with hjmp hjcmp hjz hcall hret
  · refine ⟨[.br (jmpDest jb n i)], 0, ?_, .inl hpoint, by simp, fun _ => ?_, fun hno => ?_⟩
    · rw [insert_eq, hadd]
    · refine ⟨.br (jmpDest jb n i), [], ?_, rfl⟩
      have hcmp : comparison i = none := by
        rw [comparison, if_neg (by rw [hjmp]; decide)]
      rw [comparisonItems, hcmp]
      rfl
    · exact absurd (.inl hjmp) hno
  · refine ⟨[.cmpop i.arg3.toNat i.arg2.toNat i.arg0.toNat,
      .condBr .tempReg (jmpDest jb n i) (some b.blocks.length)], 1, ?_, .inl hpoint, by simp,
      fun _ => ?_, fun hno => ?_⟩
    · rw [insert_eq b₁, createBlock_insert (by simpa [Builder.extend] using h₁), extend_extend,
        hadd]
      simp [Builder.createBlock, Builder.extend, hlen]
    · refine ⟨.condBr .tempReg (jmpDest jb n i) (some b.blocks.length), [], ?_, rfl⟩
      rw [comparisonItems, comparison, if_pos hjcmp]
      rfl
    · exact absurd (.inr (.inl hjcmp)) hno
  · refine ⟨[.condBr .tempReg (jmpDest jb n i) (some b.blocks.length)], 1, ?_, .inl hpoint,
      by simp, fun _ => ?_, fun hno => ?_⟩
    · rw [createBlock_insert h₁, hadd]
      simp [Builder.createBlock, hlen]
    · refine ⟨.condBr .tempReg (jmpDest jb n i) (some b.blocks.length), [], ?_, rfl⟩
      rw [comparisonItems, comparison, if_neg hjcmp]
      rfl
    · exact absurd (.inr (.inr hjz)) hno
  · have hno : ¬ IsJump i := by simp [IsJump, hjmp, hjcmp, hjz]
    refine ⟨[.callBr leave b.blocks.length], 1, ?_, .inr ⟨?_, Nat.one_pos⟩, by simp,
      fun hi => absurd hi hno, fun _ => ?_⟩
    · simp only [Builder.setInsertPoint]
      rw [createBlock_insert h₁, hadd]
      simp [Builder.createBlock, hlen]
    · simp only [Builder.setInsertPoint, Builder.createBlock, hlen]
    · simp [Item.dests]
  · have hno : ¬ IsJump i := by simp [IsJump, hjmp, hjcmp, hjz]
    refine ⟨[.br (some leave)], 1, ?_, .inr ⟨?_, Nat.one_pos⟩, by simp,
      fun hi => absurd hi hno, fun _ => ?_⟩
    · simp only [Builder.setInsertPoint]
      rw [insert_createBlock, hadd]
    · simp [Builder.setInsertPoint, Builder.createBlock, Builder.insert, hlen]
    · simp [Item.dests]
  · have hno : ¬ IsJump i := by simp [IsJump, hjmp, hjcmp, hjz]
    refine ⟨[], 0, ?_, .inl hpoint, by simp, fun hi => absurd hi hno, fun _ => by simp⟩
    rw [hb₁]

theorem Built.emit (h : Built code jb b) (hi : code[n]? = some i) :
    Built code jb (emit jb 1 b n i) := by
  obtain ⟨items, k, hadds⟩ := emit_adds (n := n) (i := i) jb h.insertPoint 1
  have hshaped : Shaped code jb (ownBranch jb n ++ .code n :: items) :=
    (shaped_of_no_code no_code_ownBranch).append (shaped_code hi hadds.no_code hadds.shape)
  have hdests : (∀ i ∈ code, ¬ IsJump i) →
      ∀ item ∈ ownBranch jb n ++ .code n :: items, ∀ d ∈ item.dests,
        ∃ t < b.blocks.length + k, d = some t := by
    intro hno item hitem d hd
    rcases List.mem_append.mp hitem with hown | hitem
    · unfold ownBranch at hown
      split at hown
      · rename_i block hblock
        obtain rfl := List.mem_singleton.mp hown
        obtain rfl := List.mem_singleton.mp hd
        have hmem : some block ∈ jb := by
          rw [Option.join_eq_some_iff] at hblock
          exact List.mem_of_getElem? hblock
        exact ⟨block, (h.lt_of_mem hmem).trans_le (Nat.le_add_right _ _), rfl⟩
      · cases hown
    · cases hitem with
      | head => cases hd
      | tail _ hitem =>
        have hleave := h.leave
        rcases hadds.dests (hno i (List.mem_of_getElem? hi)) item hitem d hd with rfl | ⟨rfl, hk⟩
        · exact ⟨1, by omega, rfl⟩
        · exact ⟨b.blocks.length, by omega, rfl⟩
  have hext := h.extend hshaped hdests
  have hlen : (b.extend (ownBranch jb n ++ .code n :: items) k).blocks.length =
      b.blocks.length + k := by simp [Builder.extend]
  have hemit : SqJitEngine.emit jb 1 b n i =
      (b.extend (ownBranch jb n ++ .code n :: items) k).setInsertPoint
        (SqJitEngine.emit jb 1 b n i).insertPoint := by
    rw [Builder.setInsertPoint, ← hadds.blocks]
  rw [hemit]
  rcases hadds.insertPoint with hp | ⟨hp, hk⟩
  · rw [hp]
    exact hext
  · refine hext.setInsertPoint (by omega) fun hmem => ?_
    have hlt := h.lt_of_mem hmem
    omega

private theorem Built.emitAll (h : Built code jb b) (his : is = code.drop n) :
    Built code jb (emitAll jb 1 b n is) := by
  induction is generalizing b n with
  | nil => exact h
  | cons i is ih =>
    have hi : code[n]? = some i := by
      rw [← List.head?_drop, ← his]
      rfl
    refine ih (h.emit hi) ?_
    rw [← List.tail_drop, ← his]
    rfl

theorem extend_nil (b : Builder) (k : ℕ) :
    b.extend [] k = { b with blocks := b.blocks ++ List.replicate k [] } := by
  have hid : (fun block : List Item => block ++ []) = id := by
    funext block
    exact List.append_nil block
  rw [Builder.extend, hid, List.modify_id]

/-- `jmp_blocks` are new blocks. -/
theorem createJmpBlocks_spec (b : Builder) (is : List SQInstruction) :
    ∃ k, (createJmpBlocks b is).1 = b.extend [] k ∧
      ∀ d, some d ∈ (createJmpBlocks b is).2 →
        b.blocks.length ≤ d ∧ d < b.blocks.length + k := by
  induction is generalizing b with
  | nil => exact ⟨0, by simp [createJmpBlocks, extend_nil], nofun⟩
  | cons i is ih =>
    rw [createJmpBlocks]
    split_ifs
    · obtain ⟨k, hb, hd⟩ := ih b.createBlock.1
      refine ⟨k + 1, ?_, fun d hmem => ?_⟩
      · change (createJmpBlocks b.createBlock.1 is).1 = _
        rw [hb, extend_nil, extend_nil, List.replicate_succ]
        simp [Builder.createBlock]
      · simp only [Builder.createBlock, List.length_append, List.length_singleton] at hd
        cases hmem with
        | head => exact ⟨le_rfl, by simp⟩
        | tail _ hmem =>
          have hlt := hd d hmem
          omega
    · obtain ⟨k, hb, hd⟩ := ih b
      refine ⟨k, hb, fun d hmem => ?_⟩
      cases hmem with
      | tail _ hmem => exact hd d hmem

private theorem built_emitInstructions (code : List SQInstruction) :
    ∃ jb b, Built code jb b ∧ emitInstructions code =
      (((b.insert (.br (some 1))).setInsertPoint 1).insert .retVoid).blocks := by
  obtain ⟨k, hb, hd⟩ := createJmpBlocks_spec ⟨[[], []], 0⟩ code
  refine ⟨_, _, Built.emitAll (n := 0) ?_ rfl, rfl⟩
  change Built code (createJmpBlocks ⟨[[], []], 0⟩ code).2 (createJmpBlocks ⟨[[], []], 0⟩ code).1
  rw [hb, extend_nil]
  have hempty : ∀ block ∈ [[], []] ++ List.replicate k ([] : List Item), block = [] := by
    intro block hblock
    rcases List.mem_append.mp hblock with h | h
    · simpa using h
    · exact List.eq_of_mem_replicate h
  refine ⟨by simp, by simp, fun h => ?_, fun h => ?_, fun d h => ?_, fun block h => ?_,
    fun _ block h item hitem => ?_⟩
  · have hlt := (hd _ h).1
    simp at hlt
  · have hlt := (hd _ h).1
    simp at hlt
  · obtain ⟨hle, hlt⟩ := hd d h
    have hlen : d < ([[], []] ++ List.replicate k ([] : List Item)).length := by
      simp only [List.length_append, List.length_replicate]
      exact hlt
    rw [List.getElem?_eq_getElem hlen, hempty _ (List.getElem_mem hlen)]
  · rw [hempty block h]
    exact shaped_nil
  · rw [hempty block h] at hitem
    cases hitem

/-- The whole function. -/
theorem built_graph (code : List SQInstruction) :
    ∃ jb b, Built code jb b ∧ b.blocks = emitInstructions code := by
  obtain ⟨jb, b, h, hgraph⟩ := built_emitInstructions code
  have hplain : ∀ item : Item, (∀ m, item ≠ .code m) → Shaped code jb [item] := by
    intro item hitem
    refine shaped_of_no_code fun m hm => ?_
    exact hitem m (List.mem_singleton.mp hm).symm
  have hleave := h.leave
  have h₁ : Built code jb (b.insert (.br (some 1))) := by
    rw [insert_eq]
    refine h.extend (hplain _ (by simp)) fun _ item hitem d hd => ?_
    obtain rfl := List.mem_singleton.mp hitem
    obtain rfl := List.mem_singleton.mp hd
    exact ⟨1, by omega, rfl⟩
  have h₂ := h₁.setInsertPoint h₁.leave h₁.leave_not_jmp
  refine ⟨jb, _, ?_, hgraph.symm⟩
  rw [insert_eq]
  refine h₂.extend (hplain _ (by simp)) fun _ item hitem d hd => ?_
  obtain rfl := List.mem_singleton.mp hitem
  cases hd

/-- No jump is taken to the code it should be taken to. -/
theorem not_jumpsAs {block before : List Item} {branch : Item} (hi : code[n]? = some i)
    (hjump : IsJump i) : ¬ JumpsAs (emitInstructions code) n i block before branch := by
  intro h
  obtain ⟨jb, b, hbuilt, hgraph⟩ := built_graph code
  rw [← hgraph] at h
  obtain ⟨rest, hblock⟩ := live_prefix block
  have hcode := h.code
  rw [← comparisonItems] at hcode
  rw [hcode, List.append_assoc, List.cons_append, List.append_assoc] at hblock
  obtain ⟨branch', rest', hpost, htaken⟩ := hbuilt.shaped block h.mem _ _ _ hblock i hi hjump
  -- the branch is the one that was emitted, and goes to one of `jmp_blocks`
  obtain rfl : branch = branch' := (List.cons.inj (List.append_cancel_left hpost)).1
  obtain ⟨dest, m, hnext, hleads, -⟩ := h.next fun _ => true
  rw [htaken, jmpDest] at hnext
  split_ifs at hnext
  have hmem : some dest ∈ jb := by
    rw [Option.join_eq_some_iff] at hnext
    exact List.mem_of_getElem? hnext
  exact not_leadsTo_of_empty (hbuilt.empty dest hmem) hleads

end Blocks

/-- The graph follows the interpreter exactly when there is no jump to follow. -/
theorem follows_iff_no_jump (code : List SQInstruction) :
    Follows code ↔ ∀ i ∈ code, ¬ IsJump i := by
  constructor
  · intro h i hi hjump
    obtain ⟨n, hn⟩ := List.mem_iff_getElem?.mp hi
    obtain ⟨block, before, branch, hbranch⟩ := h.jump n i hn hjump
    exact not_jumpsAs hn hjump hbranch
  · intro hno
    refine ⟨fun n i hi hjump => absurd hjump (hno i (List.mem_of_getElem? hi)), ?_⟩
    obtain ⟨jb, b, hbuilt, hgraph⟩ := built_graph code
    rw [← hgraph]
    exact hbuilt.dests hno

/-- `for(;;) {}` and the end of the function. -/
def emptyLoop : List SQInstruction :=
  [⟨BitVec.ofInt 32 (-1), _OP_JMP, 0#8, 0#8, 0#8⟩, ⟨0#32, _OP_RETURN, 0xFF#8, 0#8, 0#8⟩]

theorem emptyLoop_not_follows : ¬ Follows emptyLoop := by
  intro h
  obtain ⟨block, before, branch, hbranch⟩ := h.jump 0 _ rfl (.inl rfl)
  exact not_jumpsAs rfl (.inl rfl) hbranch

end Squirt.SqJitEngine
