import Squirt.LiteralPool

/-!
# The literals of the instructions

Which operands of an instruction are indices of literals, and which constants they were emitted for
once the optimizer has merged instructions and the increment of a `for` has been added again.
-/

namespace Squirt.Literals

open SQCompiler

/-- The operands that index the literals -/
def operands (i : SQInstruction) : List ℤ :=
  match i.op with
  | .LOAD | .GETK | .PREPCALLK => [i.arg1]
  | .DLOAD => [i.arg1, i.arg3.toNat]
  | .EQ | .NE => if i.arg3 ≠ 0 then [i.arg1] else []
  | .APPENDARRAY => if i.arg2 = 1 then [i.arg1] else []
  | _ => []

/-- What the optimizer does to the operands. -/
inductive FuseOperands (pi i : SQInstruction) : Fused → Prop
  | keep {pi' i' : SQInstruction} (hpi : operands pi' = operands pi)
    (hi : operands i' = operands i) : FuseOperands pi i (.keep pi' i')
  | double {pi' : SQInstruction} {b : Bool} (hi : i.op = .LOAD)
    (hpi : operands pi' = operands pi ++ operands i) : FuseOperands pi i (.merge pi' b)
  | single {pi' : SQInstruction} {b : Bool} (hi : i.op ≠ .LOAD)
    (hpi : operands pi' = operands pi) : FuseOperands pi i (.merge pi' b)

private theorem operands_congr {i i' : SQInstruction} (hop : i'.op = i.op) (h1 : i'.arg1 = i.arg1)
    (h2 : i'.arg2 = i.arg2) (h3 : i'.arg3 = i.arg3) : operands i' = operands i := by
  simp only [operands, hop, h1, h2, h3]

theorem operands_load {i : SQInstruction} (h : i.op = .LOAD) : operands i = [i.arg1] := by
  simp only [operands, h]

theorem fuse_operands (fs : SQFuncState) (pi i : SQInstruction) (hi : i.op = .LOAD → 0 ≤ i.arg1) :
    FuseOperands pi i (fs.fuse pi i) := by
  unfold SQFuncState.fuse
  split
  case h_1 hop =>
    split_ifs with h
    · refine .single (by simp [hop]) ?_
      simp [operands, h.1]
    · exact .keep rfl (operands_congr rfl rfl rfl rfl)
    · exact .keep rfl rfl
  case h_2 hop | h_3 hop | h_4 hop =>
    split_ifs
    · exact .keep rfl (operands_congr rfl rfl rfl rfl)
    · exact .keep rfl rfl
  case h_5 hop =>
    split_ifs with h h'
    · refine .keep ?_ rfl
      simp [operands, h.2.2.1]
    · refine .single (by simp [hop]) ?_
      simp [operands, hop, h']
    · exact .keep rfl rfl
  case h_6 hop | h_7 hop =>
    split_ifs with h
    · refine .single (by simp [hop]) ?_
      simp [operands, h.1]
    · exact .keep rfl rfl
  case h_8 hop =>
    split
    · rename_i aat haat
      split_ifs
      · refine .single (by simp [hop]) ?_
        revert haat
        cases hpi : pi.op <;> simp [operands, appendArrayType, hpi] <;> rintro rfl <;> decide
      · exact .keep rfl rfl
    · exact .keep rfl rfl
  case h_9 hop =>
    split_ifs with h h'
    · exact .single (by simp [hop]) (operands_congr rfl rfl rfl rfl)
    · refine .single (by simp [hop]) ?_
      simp [operands, h']
    · exact .keep rfl rfl
  case h_10 hop =>
    split_ifs with h
    · refine .double hop ?_
      have hsmall : ((BitVec.ofInt 8 i.arg1).toNat : ℤ) = i.arg1 := by
        have hpos := hi hop
        rw [BitVec.toNat_ofInt]
        omega
      simp only [operands, h.1, hop, hsmall, List.singleton_append]
    · exact .keep rfl rfl
  case h_11 hop | h_12 hop =>
    split_ifs with h
    · refine .single (by simp [hop]) ?_
      simp only [operands, h.1, hop]
      rfl
    · exact .keep rfl rfl
  case h_13 hop =>
    split_ifs with h
    · refine .single (by simp [hop]) ?_
      simp [operands, h.1]
    · exact .keep rfl rfl
  case h_14 hop =>
    split_ifs with h
    · refine .single (by simp [hop]) ?_
      simp [operands, h, hop]
    · exact .keep rfl rfl
  case h_15 => exact .keep rfl rfl

/-- Does `AddInstruction` merge the instruction with the previous one? -/
def isMerged (fs : SQFuncState) (i : SQInstruction) : Bool :=
  match fs.instructions.getLast? with
  | some pi =>
    fs.fusion && fs.optimization &&
      match fs.fuse pi i with
      | .merge _ _ => true
      | .keep _ _ => false
  | none => false

/-- `AddInstruction`, by the operands of the code -/
inductive AddedOperands (fs : SQFuncState) (i : SQInstruction) : Bool → List (List ℤ) → Prop
  | push : AddedOperands fs i false (fs.instructions.map operands ++ [operands i])
  | double {l : List SQInstruction} {pi : SQInstruction} (hcode : fs.instructions = l ++ [pi])
    (hi : i.op = .LOAD) :
    AddedOperands fs i true (l.map operands ++ [operands pi ++ operands i])
  | single {l : List SQInstruction} {pi : SQInstruction} (hcode : fs.instructions = l ++ [pi])
    (hi : i.op ≠ .LOAD) : AddedOperands fs i true (l.map operands ++ [operands pi])

private theorem addInstruction_operands (fs : SQFuncState) (i : SQInstruction)
    (hi : i.op = .LOAD → 0 ≤ i.arg1) :
    AddedOperands fs i (isMerged fs i) ((fs.addInstruction i).instructions.map operands) := by
  rw [isMerged, SQFuncState.addInstruction]
  cases hlast : fs.instructions.getLast? with
  | none =>
    simp only [List.map_append, List.map_cons, List.map_nil]
    exact .push
  | some pi =>
    have hcode : fs.instructions = fs.instructions.dropLast ++ [pi] :=
      (List.dropLast_append_getLast? pi hlast).symm
    dsimp only
    by_cases hopt : fs.fusion = true ∧ fs.optimization = true
    · rw [if_pos hopt, hopt.1, hopt.2]
      have hspec := fuse_operands fs pi i hi
      generalize fs.fuse pi i = fused at hspec
      cases hspec with
      | @keep pi' i' hpi hi' =>
        have hmap : (fs.instructions.dropLast ++ [pi', i']).map operands =
            fs.instructions.map operands ++ [operands i] := by
          rw [hcode]
          simp [hpi, hi']
        simp only [hmap]
        exact .push
      | double hi' hpi =>
        simp only [List.map_append, List.map_cons, List.map_nil, hpi]
        exact .double hcode hi'
      | single hi' hpi =>
        simp only [List.map_append, List.map_cons, List.map_nil, hpi]
        exact .single hcode hi'
    · rw [if_neg hopt]
      have hflag : (fs.fusion && fs.optimization) = false := by
        rw [Bool.and_eq_false_iff]
        by_cases hf : fs.fusion = true
        · exact .inr (Bool.eq_false_iff.mpr fun ho => hopt ⟨hf, ho⟩)
        · exact .inl (Bool.eq_false_iff.mpr hf)
      rw [hflag]
      simp only [List.map_append, List.map_cons, List.map_nil, Bool.false_and]
      exact .push

/-- The literals and the code of a function. Not in the source are the constants that each
instruction was emitted for, and the instructions that were popped. -/
structure Emission where
  pool : Pool
  fs : SQFuncState
  constants : List (List Literal)
  popped : List (SQInstruction × List Literal)

/-- The previous instruction was emitted for `pre` and the one that is merged with it for `cs`. -/
def mergedConstants (i : SQInstruction) (pre cs : List Literal) : List Literal :=
  if i.op = .LOAD then pre ++ cs else if cs = [] then pre else cs

/-- `AddInstruction` of an instruction that is emitted for `cs` -/
def Emission.addInstruction (e : Emission) (i : SQInstruction) (cs : List Literal) : Emission :=
  { e with
    fs := e.fs.addInstruction i
    constants :=
      if isMerged e.fs i then
        e.constants.dropLast ++ [mergedConstants i (e.constants.getLast?.getD []) cs]
      else e.constants ++ [cs] }

/-- `PopInstructions` -/
def Emission.pop (e : Emission) (size : ℕ) : Emission :=
  { e with
    fs := e.fs.popInstructions size
    constants := e.constants.take (e.fs.instructions.length - size)
    popped :=
      e.popped ++ (e.fs.instructions.zip e.constants).drop (e.fs.instructions.length - size) }

/-- The emissions of a function. What is added again is no comparison with a literal, and appends
no literal, where the optimizer merges it with the instruction before it. -/
inductive Emitted (H : Hashes) : Emission → Prop
  | start (fs : SQFuncState) (hfs : fs.instructions = []) : Emitted H ⟨Pool.init, fs, [], []⟩
  | load {e : Emission} (h : Emitted H e) (c : Literal) {k : ℤ} {pool : Pool}
    (hconst : getConstant H (some c) e.pool = .ok k pool) (i : SQInstruction) (hop : i.op = .LOAD)
    (harg : i.arg1 = k) : Emitted H (Emission.addInstruction { e with pool } i [c])
  | add {e : Emission} (h : Emitted H e) (i : SQInstruction) (hi : operands i = []) :
    Emitted H (e.addInstruction i [])
  | again {e : Emission} (h : Emitted H e) (i : SQInstruction) (cs : List Literal)
    (hpopped : (i, cs) ∈ e.popped) (hmerge : isMerged e.fs i = true → i.op = .LOAD ∨ cs = []) :
    Emitted H (e.addInstruction i cs)
  | pop {e : Emission} (h : Emitted H e) (size : ℕ) : Emitted H (e.pop size)
  /-- Targets, locals, jumps and the other operands change. -/
  | other {e : Emission} (h : Emitted H e) (fs : SQFuncState)
    (hfs : fs.instructions.map operands = e.fs.instructions.map operands) :
    Emitted H { e with fs }

/-- Every operand that indexes the literals of the prototype finds the constant that it was emitted
for. -/
def Emission.ReadsBack (e : Emission) : Prop :=
  ∃ literals, e.pool.buildProto = some literals ∧
    List.Forall₂ (List.Forall₂ fun k c => 0 ≤ k ∧ literals[k.toNat]? = some (some c))
      (e.fs.instructions.map operands) e.constants

/-- Operands are the places of constants. -/
abbrev Places (cs : List Literal) (ks : List ℤ) (l : List Literal) : Prop :=
  List.Forall₂ (fun (k : ℤ) c => ∃ n : ℕ, k = n ∧ cs[n]? = some c) ks l

theorem Places.extend {cs cs' : List Literal} {ks : List ℤ} {l : List Literal}
    (h : Places cs ks l) (hpre : cs <+: cs') : Places cs' ks l := by
  obtain ⟨rest, rfl⟩ := hpre
  refine h.imp ?_
  rintro k c ⟨n, hk, hn⟩
  exact ⟨n, hk, (List.getElem?_append_left (List.getElem?_eq_some_iff.mp hn).1).trans hn⟩

theorem forall₂_concat {α β : Type} {R : α → β → Prop} {l : List α} {a : α} {l' : List β}
    (h : List.Forall₂ R (l ++ [a]) l') :
    ∃ pre b, l' = pre ++ [b] ∧ List.Forall₂ R l pre ∧ R a b := by
  induction l generalizing l' with
  | nil =>
    obtain ⟨b, _, hab, hnil, rfl⟩ := List.forall₂_cons_left_iff.mp h
    rw [List.forall₂_nil_left_iff.mp hnil]
    exact ⟨[], b, rfl, .nil, hab⟩
  | cons x l ih =>
    obtain ⟨y, rest, hxy, hrest, rfl⟩ := List.forall₂_cons_left_iff.mp h
    obtain ⟨pre, b, rfl, hpre, hab⟩ := ih hrest
    exact ⟨y :: pre, b, rfl, .cons hxy hpre, hab⟩

theorem forall₂_getElem? {α β : Type} {R : α → β → Prop} {l : List α} {l' : List β}
    (h : List.Forall₂ R l l') {n : ℕ} {a : α} {b : β} (ha : l[n]? = some a)
    (hb : l'[n]? = some b) : R a b := by
  induction h generalizing n with
  | nil => cases ha
  | cons hab _ ih =>
    cases n with
    | zero =>
      cases ha
      cases hb
      exact hab
    | succ n => exact ih ha hb

structure Emission.Sound (H : Hashes) (e : Emission) (cs : List Literal) : Prop where
  held : e.pool.Holds H cs
  code : List.Forall₂ (Places cs) (e.fs.instructions.map operands) e.constants
  popped : ∀ i l, (i, l) ∈ e.popped → Places cs (operands i) l

section Sound

variable {H : Hashes} {e : Emission} {cs : List Literal} (h : e.Sound H cs)

include h

private theorem Emission.Sound.readsBack : e.ReadsBack := by
  refine ⟨_, h.held.buildProto, h.code.imp fun ks l hks => hks.imp ?_⟩
  rintro k c ⟨n, rfl, hn⟩
  exact ⟨Int.natCast_nonneg n, by rw [Int.toNat_natCast, List.getElem?_map, hn]; rfl⟩

theorem Emission.Sound.addInstruction {i : SQInstruction} {l : List Literal}
    (hplaces : Places cs (operands i) l)
    (hmerge : isMerged e.fs i = true → i.op = .LOAD ∨ l = []) :
    (e.addInstruction i l).Sound H cs := by
  refine ⟨h.held, ?_, h.popped⟩
  have hpos : i.op = .LOAD → 0 ≤ i.arg1 := by
    intro hop
    rw [operands_load hop] at hplaces
    obtain ⟨c, _, ⟨n, hn, -⟩, -⟩ := List.forall₂_cons_left_iff.mp hplaces
    omega
  have hadded := addInstruction_operands e.fs i hpos
  have hcode := h.code
  dsimp only [Emission.addInstruction]
  generalize isMerged e.fs i = merged at hadded hmerge
  generalize (e.fs.addInstruction i).instructions.map operands = after at hadded
  cases hadded with
  | push => exact List.rel_append hcode (.cons hplaces .nil)
  | @double before pi hl hi =>
    rw [hl, List.map_append] at hcode
    obtain ⟨pre, last, hconst, hpre, hlast⟩ := forall₂_concat hcode
    rw [if_pos rfl, hconst, List.dropLast_concat, List.getLast?_concat, mergedConstants, if_pos hi]
    exact List.rel_append hpre (.cons (List.rel_append hlast hplaces) .nil)
  | @single before pi hl hi =>
    rw [hl, List.map_append] at hcode
    obtain ⟨pre, last, hconst, hpre, hlast⟩ := forall₂_concat hcode
    have hnil : l = [] := (hmerge rfl).resolve_left hi
    rw [if_pos rfl, hconst, List.dropLast_concat, List.getLast?_concat, mergedConstants, if_neg hi,
      if_pos hnil]
    exact List.rel_append hpre (.cons hlast .nil)

theorem Emission.Sound.pop (size : ℕ) : (e.pop size).Sound H cs := by
  have htake := List.forall₂_take (e.fs.instructions.length - size) h.code
  refine ⟨h.held, ?_, fun i l hmem => ?_⟩
  · rw [← List.map_take] at htake
    exact htake
  · rcases List.mem_append.mp hmem with hold | hnew
    · exact h.popped i l hold
    · obtain ⟨n, hn⟩ := List.mem_iff_getElem?.mp (List.mem_of_mem_drop hnew)
      obtain ⟨hi, hl⟩ := List.getElem?_zip_eq_some.mp hn
      exact forall₂_getElem? h.code (by rw [List.getElem?_map, hi]; rfl) hl

end Sound

theorem Emitted.sound {H : Hashes} {e : Emission} (h : Emitted H e) :
    ∃ cs, e.Sound H cs := by
  induction h with
  | start fs hfs =>
    refine ⟨[], holds_init, ?_, fun i l hmem => (List.not_mem_nil hmem).elim⟩
    rw [hfs]
    exact .nil
  | @load e _ c k pool hconst i hop harg ih =>
    obtain ⟨cs, hsound⟩ := ih
    obtain ⟨cs', hheld, hpre, -, n, rfl, hplace⟩ := hsound.held.of_getConstant hconst
    refine ⟨cs', Emission.Sound.addInstruction ⟨hheld, ?_, fun i l hmem => ?_⟩ ?_
      fun _ => .inl hop⟩
    · exact hsound.code.imp fun _ _ hks => hks.extend hpre
    · exact (hsound.popped i l hmem).extend hpre
    · rw [operands_load hop, harg]
      exact .cons ⟨n, rfl, hplace⟩ .nil
  | add _ i hi ih =>
    obtain ⟨cs, hsound⟩ := ih
    exact ⟨cs, hsound.addInstruction (hi ▸ .nil) fun _ => .inr rfl⟩
  | again _ i l hpopped hmerge ih =>
    obtain ⟨cs, hsound⟩ := ih
    exact ⟨cs, hsound.addInstruction (hsound.popped i l hpopped) hmerge⟩
  | pop _ size ih =>
    obtain ⟨cs, hsound⟩ := ih
    exact ⟨cs, hsound.pop size⟩
  | other _ fs hfs ih =>
    obtain ⟨cs, hsound⟩ := ih
    exact ⟨cs, hsound.held, hfs ▸ hsound.code, hsound.popped⟩

/-- The literals of a function: indices are given one to one unless null is asked for, and the code
reads back the constants that it was emitted for. -/
theorem literal_pool_bijective_iff (H : Hashes) :
    (∀ calls, Lawful H calls ↔ NullFree calls) ∧ ∀ e, Emitted H e → e.ReadsBack := by
  refine ⟨lawful_iff_nullFree H, fun e he => ?_⟩
  obtain ⟨cs, hsound⟩ := he.sound
  exact hsound.readsBack

/-- `return [N, N]` with a null constant `N` -/
theorem literal_pool_null_fails : ¬ Lawful ⟨id, id, id⟩ [none, none] := by
  rintro ⟨message, heq⟩
  cases heq

end Squirt.Literals
