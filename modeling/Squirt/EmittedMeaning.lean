import Squirt.ExpressionMeaning
import Squirt.PeepholeMerges

/-!
# What emitted code does

The code of a function under compilation does something from some position on. An instruction that
is added comes after it, merged with the last one or not.
-/

namespace Squirt.SQCompiler

open CodeBlocks

/-- The instructions whose result `_OP_MOVE` takes over -/
def retargeted : List SQOpcode :=
  [.GET, .ADD, .SUB, .MUL, .DIV, .MOD, .BITW, .LOADINT, .LOADFLOAT, .LOADBOOL, .LOAD]

/-- The instructions that one of an expression can be merged with -/
def mergeable : List SQOpcode := retargeted ++ [.MOVE, .LOADNULLS, .CMP]

/-- The optimizer is at work. -/
def SQFuncState.Merging (fs : SQFuncState) : Prop := fs.fusion = true ∧ fs.optimization = true

section Emission

variable {V E G : Type} (ops : Operations V E G) (nlocals : ℕ) {σ τ υ : Type}

/-- The code after `pre` does what `D` says. When its last instruction can be merged with the next
one, it is known apart from the code before. -/
structure Emitted (pre : List SQInstruction) (A : σ → Registers V G → Prop)
    (B : τ → Registers V G → Prop) (D : σ → Except (E × World V G) τ) (fs : SQFuncState) :
    Prop where
  isPrefix : pre <+: fs.instructions
  implements : Implements (execute ops nlocals) fs.instructions pre.length fs.instructions.length
    A B D
  last : fs.Merging → ∀ pi, fs.instructions.getLast? = some pi → pi.op ∈ mergeable →
    ∃ (rest : List SQInstruction) (ρ : Type) (M : ρ → Registers V G → Prop)
      (D₀ : σ → Except (E × World V G) ρ) (F : ρ → Except (E × World V G) τ),
      fs.instructions = rest ++ [pi] ∧ pre <+: rest ∧
      Implements (execute ops nlocals) rest pre.length rest.length A M D₀ ∧
      Does (execute ops nlocals) pi M B F ∧ ∀ x, D x = D₀ x >>= F

/-- What the optimizer makes of the instruction does the same as the instruction after the last
one, to `C`. -/
def SQFuncState.Merges (fs : SQFuncState) (i : SQInstruction) (C : υ → Registers V G → Prop) :
    Prop :=
  fs.Merging → ∀ pi, fs.instructions.getLast? = some pi → match fs.fuse pi i with
    | .merge j _ => pi.op ∈ mergeable ∧ Replaces (execute ops nlocals) pi i j C
    | .keep pi' i' => pi' = pi ∧ ∀ m, execute ops nlocals i' m = execute ops nlocals i m

variable {ops nlocals} {pre : List SQInstruction} {A : σ → Registers V G → Prop}
  {B : τ → Registers V G → Prop} {C : υ → Registers V G → Prop}
  {D D' : σ → Except (E × World V G) τ}
  {F : τ → Except (E × World V G) υ} {fs fs' : SQFuncState} {i j : SQInstruction}

namespace Emitted

/-- Nothing has been emitted, and nothing can be merged with what was there. -/
theorem start (hlast : fs.Merging → ∀ pi, fs.instructions.getLast? = some pi →
    pi.op ∉ mergeable) :
    Emitted ops nlocals fs.instructions A A (Except.ok (ε := E × World V G)) fs where
  isPrefix := List.prefix_rfl
  implements := .refl A
  last hm pi hpi hop := absurd hop (hlast hm pi hpi)

theorem congr (h : Emitted ops nlocals pre A B D fs) (hD : ∀ x, D x = D' x) :
    Emitted ops nlocals pre A B D' fs := by
  have heq : D = D' := funext hD
  exact heq ▸ h

/-- Only the code and the optimizer matter. -/
theorem of_eq (h : Emitted ops nlocals pre A B D fs) (hcode : fs'.instructions = fs.instructions)
    (hmerging : fs'.Merging → fs.Merging) : Emitted ops nlocals pre A B D fs' where
  isPrefix := hcode ▸ h.isPrefix
  implements := hcode ▸ h.implements
  last hm pi := hcode ▸ h.last (hmerging hm) pi

theorem map (h : Emitted ops nlocals pre A B D fs) (g : τ → υ) (hg : ∀ y m, B y m → C (g y) m) :
    Emitted ops nlocals pre A C (fun x => (D x).map g) fs where
  isPrefix := h.isPrefix
  implements := h.implements.map g hg
  last hm pi hpi hop := by
    obtain ⟨rest, ρ, M, D₀, F, hcode, hpre, hrest, hdoes, hD⟩ := h.last hm pi hpi hop
    refine ⟨rest, ρ, M, D₀, fun z => (F z).map g, hcode, hpre, hrest, hdoes.map g hg, fun x => ?_⟩
    rw [hD]
    cases D₀ x <;> rfl

/-- An instruction after the code -/
theorem push (h : Emitted ops nlocals pre A B D fs) (hi : Does (execute ops nlocals) i B C F)
    (hcode : fs'.instructions = fs.instructions ++ [i]) :
    Emitted ops nlocals pre A C (fun x => D x >>= F) fs' where
  isPrefix := hcode ▸ h.isPrefix.trans (List.prefix_append _ _)
  implements := by
    rw [hcode, List.length_append, List.length_singleton]
    have hcodes : ∀ p, pre.length ≤ p → p < fs.instructions.length →
        (fs.instructions ++ [i])[p]? = fs.instructions[p]? := fun _ _ hp =>
      List.getElem?_append_left hp
    have hbefore := h.implements.congr hcodes
    exact hbefore.trans (hi.implements List.getElem?_concat_length) h.isPrefix.length_le
      (Nat.le_succ _)
  last hm pi hpi hop := by
    rw [hcode, List.getLast?_concat] at hpi
    cases hpi
    exact ⟨fs.instructions, τ, B, D, F, hcode, h.isPrefix, h.implements, hi, fun _ => rfl⟩

/-- Code that comes after other code than the code that it was emitted after -/
theorem seq {code pre' rest : List SQInstruction}
    (h : Implements (execute ops nlocals) code pre.length code.length A B D) (hpre : pre <+: code)
    (h' : Emitted ops nlocals pre' B C F fs) (hlen : pre'.length = code.length)
    (hcode : fs.instructions = pre' ++ rest) (hcode' : fs'.instructions = code ++ rest)
    (hmerging : fs'.Merging → fs.Merging)
    (hlast : ∀ pi, code.getLast? = some pi → pi.op ∉ mergeable) :
    Emitted ops nlocals pre A C (fun x => D x >>= F) fs' := by
  have hafter : ∀ rest' : List SQInstruction, ∀ p, pre'.length ≤ p → p < (pre' ++ rest').length →
      (code ++ rest')[p]? = (pre' ++ rest')[p]? := by
    intro rest' p hp _
    rw [List.getElem?_append_right hp, List.getElem?_append_right (hlen ▸ hp), hlen]
  have hbefore : ∀ rest' : List SQInstruction, ∀ p, pre.length ≤ p → p < code.length →
      (code ++ rest')[p]? = code[p]? := fun _ _ _ hp => List.getElem?_append_left hp
  have hboth : ∀ {ρ : Type} {M : ρ → Registers V G → Prop} {H : τ → Except (E × World V G) ρ}
      {rest' : List SQInstruction}, Implements (execute ops nlocals) (pre' ++ rest') pre'.length
        (pre' ++ rest').length B M H →
      Implements (execute ops nlocals) (code ++ rest') pre.length (code ++ rest').length A M
        fun x => D x >>= H := by
    intro ρ M H rest' himpl
    have hsecond := himpl.congr (hafter rest')
    rw [List.length_append, hlen, ← List.length_append] at hsecond
    have hfirst := h.congr (hbefore rest')
    exact hfirst.trans hsecond hpre.length_le (by simp)
  constructor
  · rw [hcode']
    exact hpre.trans (List.prefix_append _ _)
  · rw [hcode']
    exact hboth (hcode ▸ h'.implements)
  · intro hm pi hpi hop
    rcases List.eq_nil_or_concat rest with rfl | ⟨rest', pi', rfl⟩
    · rw [hcode', List.append_nil] at hpi
      exact absurd hop (hlast pi hpi)
    · rw [List.concat_eq_append, ← List.append_assoc] at hcode hcode'
      rw [hcode', List.getLast?_concat] at hpi
      cases hpi
      have hpi' : fs.instructions.getLast? = some pi := by
        rw [hcode, List.getLast?_concat]
      obtain ⟨rest₂, ρ, M, D₀, F₀, hcode₂, hpre₂, himpl, hdoes, hF⟩ :=
        h'.last (hmerging hm) pi hpi' hop
      have hrest : rest₂ = pre' ++ rest' := by
        rw [hcode] at hcode₂
        exact (List.append_inj_left' hcode₂ rfl).symm
      refine ⟨code ++ rest', ρ, M, fun x => D x >>= D₀, F₀, hcode', ?_, ?_, hdoes, fun x => ?_⟩
      · exact hpre.trans (List.prefix_append _ _)
      · exact hboth (hrest ▸ himpl)
      · rw [funext hF]
        exact (bind_assoc (D x) D₀ F₀).symm

/-- `AddInstruction` -/
theorem add (h : Emitted ops nlocals pre A B D fs) (hi : Does (execute ops nlocals) i B C F)
    (hmerges : fs.Merges ops nlocals i C) :
    Emitted ops nlocals pre A C (fun x => D x >>= F) (fs.addInstruction i) := by
  unfold SQFuncState.addInstruction
  split
  case h_2 => exact h.push hi rfl
  case h_1 pi hpi =>
    have hlast : fs.instructions.dropLast ++ [pi] = fs.instructions :=
      List.dropLast_append_getLast? pi hpi
    split_ifs with hm
    case neg => exact h.push hi rfl
    have hsafe := hmerges hm pi hpi
    generalize fs.fuse pi i = fused at hsafe
    cases fused with
    | keep pi' i' =>
      obtain ⟨rfl, hsame⟩ := hsafe
      have hi' : Does (execute ops nlocals) i' B C F := by
        intro x m hx
        rw [hsame]
        exact hi x m hx
      apply h.push hi'
      rw [← hlast]
      simp
    | merge j opt =>
      obtain ⟨hop, hreplaces⟩ := hsafe
      obtain ⟨rest, ρ, M, D₀, F₀, hcode, hpre, hrest, hdoes, hD⟩ := h.last hm pi hpi hop
      have hboth := hdoes.fuse hi hreplaces
      have hbefore : Emitted ops nlocals pre A M D₀ { fs with
          instructions := rest, optimization := false } :=
        ⟨hpre, hrest, fun hm' => absurd hm'.2 Bool.false_ne_true⟩
      have hdrop : fs.instructions.dropLast = rest := by rw [hcode, List.dropLast_concat]
      rw [hdrop]
      apply (hbefore.push hboth rfl).congr
      intro x
      rw [hD]
      exact (bind_assoc (D₀ x) F₀ F).symm

end Emitted

end Emission

/-! ## The instructions that are merged -/

/-- The loads of a constant -/
def constantLoads : List SQOpcode := [.LOADINT, .LOADFLOAT, .LOADBOOL, .LOAD]

/-- The last instruction is of the kind that `τ` says, if it can be merged with the next one. -/
def SQFuncState.Ends (nlocals : ℕ) (τ : Tail) (fs : SQFuncState) : Prop :=
  fs.Merging → ∀ pi, fs.instructions.getLast? = some pi →
    (pi.op = .CMP → τ = .compare ∧ 0 ≤ pi.arg1) ∧
    (pi.op ∈ retargeted →
      nlocals ≤ pi.arg0.toNat ∨
        pi.op ∉ constantLoads ∧ τ = .compound pi.arg0.toNat ∧ pi.arg0.toNat ≠ 0) ∧
    (pi.op = .LOADNULLS → 0 ≤ pi.arg1) ∧ pi.op ≠ .MOD

/-- The instructions that are always added as they are -/
def unmerged : List SQOpcode :=
  [.LOADINT, .LOADFLOAT, .LOADBOOL, .LOADROOT, .GETBASE, .CLOSURE, .GETOUTER, .DELETE, .ADD, .SUB,
    .MUL, .DIV, .MOD, .BITW, .CMP, .EXISTS, .INSTANCEOF, .DYNAMICCAST, .NEG, .NOT, .BWNOT, .TYPEOF,
    .RESUME, .CLONE, .NEWOBJ, .COMPARITH, .INC, .PINC, .INCL, .PINCL, .CALL, .AND, .OR, .JMP]

section Ends

variable {fs : SQFuncState} {i j pi pi' i' : SQInstruction} {τ τ' : Tail} {nlocals : ℕ}

private theorem merge_last (h : fs.fuse pi i = .merge j true) : j.op ∉ mergeable ∨
    i.op = .LOADNULLS ∧ pi.op = .LOADNULLS ∧ j.op = .LOADNULLS ∧ j.arg1 = pi.arg1 + 1 := by
  unfold SQFuncState.fuse at h
  split at h
  all_goals try split at h
  all_goals try split at h
  all_goals try cases h
  all_goals simp_all [mergeable, retargeted]

private theorem keep_last (h : fs.fuse pi i = .keep pi' i') : i' = i ∨ i'.op ∉ mergeable := by
  unfold SQFuncState.fuse at h
  split at h
  all_goals try split at h
  all_goals try split at h
  all_goals try cases h
  all_goals simp_all [mergeable, retargeted]

theorem ends_of_not_mergeable (h : pi.op ∉ mergeable) :
    (pi.op = .CMP → τ = .compare ∧ 0 ≤ pi.arg1) ∧
    (pi.op ∈ retargeted →
      nlocals ≤ pi.arg0.toNat ∨
        pi.op ∉ constantLoads ∧ τ = .compound pi.arg0.toNat ∧ pi.arg0.toNat ≠ 0) ∧
    (pi.op = .LOADNULLS → 0 ≤ pi.arg1) ∧ pi.op ≠ .MOD := by
  have hcmp : SQOpcode.CMP ∈ mergeable := by decide
  have hnulls : SQOpcode.LOADNULLS ∈ mergeable := by decide
  have hmod : SQOpcode.MOD ∈ mergeable := by decide
  refine ⟨?_, ?_, ?_, ?_⟩ <;> intro hop
  · exact absurd (hop ▸ hcmp) h
  · exact absurd (List.mem_append_left _ hop) h
  · exact absurd (hop ▸ hnulls) h
  · exact h (hop ▸ hmod)

namespace SQFuncState.Ends

/-- `AddInstruction` of an instruction of the kind that `τ'` says -/
theorem add (h : fs.Ends nlocals τ) (hcmp : i.op = .CMP → τ' = .compare ∧ 0 ≤ i.arg1)
    (hstored : i.op ∈ retargeted →
      nlocals ≤ i.arg0.toNat ∨
        i.op ∉ constantLoads ∧ τ' = .compound i.arg0.toNat ∧ i.arg0.toNat ≠ 0)
    (hnulls : i.op = .LOADNULLS → 0 ≤ i.arg1) (hmod : i.op ≠ .MOD) :
    (fs.addInstruction i).Ends nlocals τ' := by
  have hpush : ∀ {code : List SQInstruction} {fs' : SQFuncState}, fs'.instructions = code ++ [i] →
      fs'.Ends nlocals τ' := by
    intro code fs' hcode _ pi hpi
    rw [hcode, List.getLast?_concat] at hpi
    cases hpi
    exact ⟨hcmp, hstored, hnulls, hmod⟩
  unfold SQFuncState.addInstruction
  split
  case h_2 => exact hpush rfl
  case h_1 pi hpi =>
    split_ifs with hm
    case neg => exact hpush rfl
    cases hfuse : fs.fuse pi i with
    | keep pi' i' =>
      rcases keep_last hfuse with rfl | hop
      · have hcode : fs.instructions.dropLast ++ [pi', i'] =
            (fs.instructions.dropLast ++ [pi']) ++ [i'] := by simp
        exact hpush hcode
      · intro _ pi₂ hpi₂
        have hlast : i' = pi₂ := by simpa using hpi₂
        exact ends_of_not_mergeable (hlast ▸ hop)
    | merge j opt =>
      intro hm' pi₂ hpi₂
      have hlast : j = pi₂ := by simpa using hpi₂
      have hopt : opt = true := hm'.2
      subst hlast hopt
      rcases merge_last hfuse with hop | ⟨_, hop, hj, harg1⟩
      · exact ends_of_not_mergeable hop
      · have hpos := (h hm pi hpi).2.2.1 hop
        have hret : SQOpcode.LOADNULLS ∉ retargeted := by decide
        simp only [hj, hret, reduceCtorEq, IsEmpty.forall_iff, true_and, ne_eq, not_false_eq_true,
          and_true]
        omega

/-- `AddInstruction` of an instruction that no later one is merged with because of its result -/
theorem add_plain (h : fs.Ends nlocals τ) (hret : i.op ∉ retargeted) (hcmp : i.op ≠ .CMP)
    (hnulls : i.op ≠ .LOADNULLS) : (fs.addInstruction i).Ends nlocals τ' := by
  have hmod : SQOpcode.MOD ∈ retargeted := by decide
  apply h.add (fun hop => absurd hop hcmp) (fun hop => absurd hop hret) (fun hop => absurd hop hnulls)
  intro hop
  exact hret (hop ▸ hmod)

end SQFuncState.Ends

end Ends

section Merges

variable {V E G : Type} {ops : Operations V E G} {nlocals : ℕ} {υ : Type}
  {C : υ → Registers V G → Prop} {fs : SQFuncState} {i pi : SQInstruction} {τ : Tail} {n s : ℕ}

theorem fuse_unmerged (h : i.op ∈ unmerged) : fs.fuse pi i = .keep pi i := by
  unfold SQFuncState.fuse
  split <;> first
    | rfl
    | (rename_i hop; rw [hop] at h; exact absurd h (by decide))

theorem merges_unmerged (h : i.op ∈ unmerged) : fs.Merges ops nlocals i C := by
  intro _ pi _
  rw [fuse_unmerged h]
  exact ⟨rfl, fun _ => rfl⟩

theorem Registers.setReg_reg_self (m : Registers V G) (r : ℕ) :
    m.setReg nlocals r (m.reg nlocals r) = m := by
  by_cases h : r < nlocals <;> simp [setReg, reg, h]

private theorem execute_set (h : i.op = .SET ∨ i.op = .NEWSLOT) (heq : i.arg0 = i.arg3)
    (m : Registers V G) : execute ops nlocals { i with arg0 := 0xFF } m = execute ops nlocals i m := by
  rcases h with h | h
  all_goals
    simp only [execute, SQInstruction.computation, h, heq, ne_eq, not_true_eq_false, if_false,
      Registers.setReg_reg_self, ite_self]

private theorem execute_setOuter (h : i.op = .SETOUTER) (heq : i.arg0 = i.arg2)
    (m : Registers V G) :
    execute ops nlocals { i with arg0 := 0xFF } m = execute ops nlocals i m := by
  simp only [execute, SQInstruction.computation, h, heq, ne_eq, not_true_eq_false, if_false,
    Registers.setReg_reg_self, ite_self]

/-- The value is in its register already. -/
theorem merges_set (h : i.op = .SET ∨ i.op = .NEWSLOT) : fs.Merges ops nlocals i C := by
  intro _ pi _
  have hfuse : fs.fuse pi i =
      if i.arg0 = i.arg3 then .keep pi { i with arg0 := 0xFF } else .keep pi i := by
    rcases h with h | h <;> simp only [SQFuncState.fuse, h]
  rw [hfuse]
  split_ifs with heq
  · exact ⟨rfl, execute_set h heq⟩
  · exact ⟨rfl, fun _ => rfl⟩

theorem merges_setOuter (h : i.op = .SETOUTER) : fs.Merges ops nlocals i C := by
  intro _ pi _
  have hfuse : fs.fuse pi i =
      if i.arg0 = i.arg2 then .keep pi { i with arg0 := 0xFF } else .keep pi i := by
    simp only [SQFuncState.fuse, h]
  rw [hfuse]
  split_ifs with heq
  · exact ⟨rfl, execute_setOuter h heq⟩
  · exact ⟨rfl, fun _ => rfl⟩

theorem SQFuncState.Ends.le_of_load (h : fs.Ends nlocals τ) (hm : fs.Merging)
    (hpi : fs.instructions.getLast? = some pi) (hop : pi.op ∈ constantLoads) :
    nlocals ≤ pi.arg0.toNat := by
  have hsub : constantLoads ⊆ retargeted := by decide
  rcases (h hm pi hpi).2.1 (hsub hop) with hle | ⟨hnot, _⟩
  · exact hle
  · exact absurd hop hnot

theorem merges_get (h : i.op = .GET) (hends : fs.Ends nlocals τ) (hs : i.arg1 = s) (hlt : s < 256)
    (hne : nlocals ≤ i.arg2.toNat → s ≠ i.arg2.toNat)
    (hC : nlocals ≤ i.arg2.toNat → Dead i.arg2.toNat i.arg0.toNat C) :
    fs.Merges ops nlocals i C := by
  intro hm pi hpi
  have hfuse : fs.fuse pi i =
      if pi.op = .LOAD ∧ pi.arg0 = i.arg2 ∧ !fs.isLocal pi.arg0.toNat then
        .merge { pi with op := .GETK, arg0 := i.arg0, arg2 := .ofInt 8 i.arg1 } true
      else .keep pi i := by
    simp only [SQFuncState.fuse, h]
  rw [hfuse]
  split_ifs with hcond
  · have hle := hends.le_of_load hm hpi (by rw [hcond.1]; decide)
    rw [← hcond.2.1] at hne hC
    exact ⟨by rw [hcond.1]; decide, replaces_get hcond.1 h hcond.2.1 hs hlt (hne hle) hle (hC hle)⟩
  · exact ⟨rfl, fun _ => rfl⟩

theorem merges_equality {op : BinaryOperator} (h : i.op = .EQ ∧ op = .eq ∨ i.op = .NE ∧ op = .ne)
    (hends : fs.Ends nlocals τ) (harg3 : i.arg3 = 0) (hn : i.arg1 = n)
    (hne : nlocals ≤ n → i.arg2.toNat ≠ n) (hC : nlocals ≤ n → Dead n i.arg0.toNat C) : fs.Merges ops nlocals i C := by
  intro hm pi hpi
  have hfuse : fs.fuse pi i =
      if pi.op = .LOAD ∧ (pi.arg0.toNat : ℤ) = i.arg1 ∧ !fs.isLocal pi.arg0.toNat then
        .merge { pi with op := i.op, arg0 := i.arg0, arg2 := i.arg2, arg3 := 0xFF } true
      else .keep pi i := by
    rcases h with ⟨h, _⟩ | ⟨h, _⟩ <;> simp only [SQFuncState.fuse, h]
  rw [hfuse]
  split_ifs with hcond
  · have hle := hends.le_of_load hm hpi (by rw [hcond.1]; decide)
    have hreg : pi.arg0.toNat = n := by omega
    rw [← hreg] at hne hC
    exact ⟨by rw [hcond.1]; decide,
      replaces_equality hcond.1 h hcond.2.1 harg3 rfl (hne hle) hle (hC hle)⟩
  · exact ⟨rfl, fun _ => rfl⟩

theorem merges_load (h : i.op = .LOAD) (hn : i.arg1 = n) : fs.Merges ops nlocals i C := by
  intro _ pi _
  have hfuse : fs.fuse pi i = if pi.op = .LOAD ∧ i.arg1 < 256 then
      .merge { pi with op := .DLOAD, arg2 := i.arg0, arg3 := .ofInt 8 i.arg1 } true
      else .keep pi i := by
    simp only [SQFuncState.fuse, h]
  rw [hfuse]
  split_ifs with hcond
  · exact ⟨by rw [hcond.1]; decide, replaces_load hcond.1 h hn (by omega)⟩
  · exact ⟨rfl, fun _ => rfl⟩

theorem merges_loadNulls (h : i.op = .LOADNULLS) (hends : fs.Ends nlocals τ) (hone : i.arg1 = 1) :
    fs.Merges ops nlocals i C := by
  intro hm pi hpi
  have hfuse : fs.fuse pi i =
      if pi.op = .LOADNULLS ∧ (pi.arg0.toNat : ℤ) + pi.arg1 = i.arg0.toNat then
        .merge { pi with arg1 := pi.arg1 + 1 } true
      else .keep pi i := by
    simp only [SQFuncState.fuse, h]
  rw [hfuse]
  split_ifs with hcond
  · have hpos := (hends hm pi hpi).2.2.1 hcond.1
    exact ⟨by rw [hcond.1]; decide, replaces_loadNulls hcond.1 h hone hcond.2 hpos⟩
  · exact ⟨rfl, fun _ => rfl⟩

theorem merges_prepCall (h : i.op = .PREPCALL) (hends : fs.Ends nlocals τ) (hn : i.arg1 = n)
    (hne : nlocals ≤ n → i.arg2.toNat ≠ n)
    (hC : nlocals ≤ n → i.arg3.toNat = n ∨ Dead n i.arg0.toNat C) : fs.Merges ops nlocals i C := by
  intro hm pi hpi
  have hfuse : fs.fuse pi i =
      if pi.op = .LOAD ∧ (pi.arg0.toNat : ℤ) = i.arg1 ∧ !fs.isLocal pi.arg0.toNat then
        .merge { pi with op := .PREPCALLK, arg0 := i.arg0, arg2 := i.arg2, arg3 := i.arg3 } true
      else .keep pi i := by
    simp only [SQFuncState.fuse, h]
  rw [hfuse]
  split_ifs with hcond
  · have hle := hends.le_of_load hm hpi (by rw [hcond.1]; decide)
    have hreg : pi.arg0.toNat = n := by omega
    rw [← hreg] at hne hC
    exact ⟨by rw [hcond.1]; decide, replaces_prepCall hcond.1 h hcond.2.1 (hne hle) hle (hC hle)⟩
  · exact ⟨rfl, fun _ => rfl⟩

theorem merges_appendArray (h : i.op = .APPENDARRAY) (hends : fs.Ends nlocals τ) (hn : i.arg1 = n)
    (harg2 : i.arg2 = 0) (hne : nlocals ≤ n → i.arg0.toNat ≠ n) (hC : nlocals ≤ n → Blind n C) :
    fs.Merges ops nlocals i C := by
  intro hm pi hpi
  have hfuse : fs.fuse pi i = .keep pi i ∨ ∃ aat, appendArrayType pi.op = some aat ∧
      (pi.arg0.toNat : ℤ) = i.arg1 ∧ fs.fuse pi i = .merge
        { pi with op := .APPENDARRAY, arg0 := i.arg0, arg2 := aat, arg3 := 0xFF } true := by
    simp only [SQFuncState.fuse, h]
    cases haat : appendArrayType pi.op with
    | none => exact .inl rfl
    | some aat =>
      dsimp only
      split_ifs with hcond
      · exact .inr ⟨aat, rfl, hcond.1, rfl⟩
      · exact .inl rfl
  rcases hfuse with hfuse | ⟨aat, haat, hcond, hfuse⟩ <;> rw [hfuse]
  · exact ⟨rfl, fun _ => rfl⟩
  · have hop : pi.op ∈ constantLoads := by
      by_contra hnot
      simp only [constantLoads, List.mem_cons, List.not_mem_nil, or_false, not_or] at hnot
      simp [appendArrayType, hnot] at haat
    have hsub : constantLoads ⊆ mergeable := by decide
    have hle := hends.le_of_load hm hpi hop
    have hreg : pi.arg0.toNat = n := by omega
    rw [← hreg] at hne hC
    exact ⟨hsub hop, replaces_appendArray haat h hcond harg2 (hne hle) hle (hC hle)⟩

/-- The register that is moved is a temporary that is not used any more, or it is `this` or a
variable and no operator has just stored its result in it. -/
theorem merges_move (h : i.op = .MOVE) (hends : fs.Ends nlocals τ) (hn : i.arg1 = n)
    (hlt : n < 256) (hlocal : n < nlocals → n = 0 ∨ τ ≠ .compound n)
    (hC : nlocals ≤ n → Dead n i.arg0.toNat C) : fs.Merges ops nlocals i C := by
  intro hm pi hpi
  have hfuse : (pi.op ∈ retargeted ∧ (pi.arg0.toNat : ℤ) = i.arg1) ∧
        fs.fuse pi i = .merge { pi with arg0 := i.arg0 } false ∨
      pi.op = .MOVE ∧ fs.fuse pi i = .merge
        { pi with op := .DMOVE, arg2 := i.arg0, arg3 := .ofInt 8 i.arg1 } true ∨
      fs.fuse pi i = .keep pi i := by
    simp only [SQFuncState.fuse, h]
    split_ifs with hcond hmove
    · exact .inl ⟨hcond, rfl⟩
    · exact .inr (.inl ⟨hmove, rfl⟩)
    · exact .inr (.inr rfl)
  rcases hfuse with ⟨hcond, hfuse⟩ | ⟨hmove, hfuse⟩ | hfuse <;> rw [hfuse]
  · have hreg : pi.arg0.toNat = n := by omega
    have hle : nlocals ≤ pi.arg0.toNat := by
      rcases (hends hm pi hpi).2.1 hcond.1 with hle | ⟨_, hcompound, hne⟩
      · exact hle
      · by_contra hnot
        rcases hlocal (by omega) with hzero | hother
        · exact hne (hreg.trans hzero)
        · exact hother (hreg ▸ hcompound)
    have hmod : pi.op ≠ .MOD := (hends hm pi hpi).2.2.2
    obtain ⟨c, hc⟩ : ∃ c, pi.computation = some c := by
      have hop := hcond.1
      simp only [retargeted, List.mem_cons, List.not_mem_nil, or_false] at hop
      unfold SQInstruction.computation
      rcases hop with hop | hop | hop | hop | hop | hop | hop | hop | hop | hop | hop <;>
        rw [hop] <;> first | exact ⟨_, rfl⟩ | exact absurd hop hmod
    have hmove : i.computation = some (.copy (.reg pi.arg0.toNat)) := by
      simp [SQInstruction.computation, h, hn, hreg]
    have hdead := hC (hreg ▸ hle)
    rw [← hreg] at hdead
    exact ⟨List.mem_append_left _ hcond.1, replaces_moved hc hle hmove hc rfl hdead⟩
  · exact ⟨by rw [hmove]; decide, replaces_move hmove h hn hlt⟩
  · exact ⟨rfl, fun _ => rfl⟩

end Merges

end Squirt.SQCompiler
