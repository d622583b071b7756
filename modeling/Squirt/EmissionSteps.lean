import Squirt.StatementCode

/-!
# What one emission does

`AddInstruction` adds an instruction or merges it with the previous one, and what an expression
adds are plain instructions and jumps among themselves.
-/

namespace Squirt.SQCompiler

variable {fs fs' fs'' : SQFuncState} {i pi : SQInstruction} {base : List SQInstruction}

/-- `AddInstruction` of `i`, by the code after it. -/
inductive Added (fs : SQFuncState) (i : SQInstruction) : List SQInstruction → Prop
  | push {i' : SQInstruction} (hi : i' = i ∨ (i.op.isPlain = true ∨ i.op = .JZ) ∧
    i' = { i with arg0 := 0xFF }) : Added fs i (fs.instructions ++ [i'])
  | merge {l : List SQInstruction} {pi pi' : SQInstruction} (hopt : fs.optimization = true)
    (hcode : fs.instructions = l ++ [pi]) (hpi : pi.op.isPlain = true)
    (hi : i.op.isPlain = true ∧ pi'.op.isPlain = true ∨
      i.op = .JZ ∧ pi'.op = .JCMP ∧ pi'.arg1 = i.arg1 ∨
      i.op = .RETURN ∧ pi' = i) : Added fs i (l ++ [pi'])
  | tail {l : List SQInstruction} {pi : SQInstruction}
    (hcode : fs.instructions = l ++ [pi]) (hpi : pi.op = .CALL) (hi : i.op = .RETURN) :
    Added fs i (l ++ [{ pi with op := .TAILCALL }, i])

/-- What the optimizer does. -/
inductive FuseSpec (pi i : SQInstruction) : Fused → Prop
  | keep : FuseSpec pi i (.keep pi i)
  | blank (hi : i.op.isPlain = true ∨ i.op = .JZ) : FuseSpec pi i (.keep pi { i with arg0 := 0xFF })
  | tail (hpi : pi.op = .CALL) (hi : i.op = .RETURN) :
    FuseSpec pi i (.keep { pi with op := .TAILCALL } i)
  | merge {pi' : SQInstruction} {b : Bool} (hpi : pi.op.isPlain = true)
    (hi : i.op.isPlain = true ∧ pi'.op.isPlain = true ∨
      i.op = .JZ ∧ pi'.op = .JCMP ∧ pi'.arg1 = i.arg1 ∨
      i.op = .RETURN ∧ pi' = i) : FuseSpec pi i (.merge pi' b)

private theorem isPlain_of_eq {op op' : SQOpcode} (h : op = op') (h' : op'.isPlain = true) :
    op.isPlain = true := h ▸ h'

private theorem fuse_spec (fs : SQFuncState) (pi i : SQInstruction) : FuseSpec pi i (fs.fuse pi i)
    := by
  unfold SQFuncState.fuse
  split
  case h_1 hi =>
    split_ifs with h
    · exact .merge (isPlain_of_eq h.1 rfl) (.inr (.inl ⟨hi, rfl, rfl⟩))
    · exact .blank (.inr hi)
    · exact .keep
  case h_2 hi | h_3 hi | h_4 hi =>
    split_ifs
    · exact .blank (.inl (isPlain_of_eq hi rfl))
    · exact .keep
  case h_5 hi =>
    split_ifs with h h'
    · exact .tail h.2.2.1 hi
    · exact .merge (isPlain_of_eq h' rfl) (.inr (.inr ⟨hi, rfl⟩))
    · exact .keep
  case h_6 hi | h_7 hi =>
    split_ifs with h
    · exact .merge (isPlain_of_eq h.1 rfl) (.inl ⟨isPlain_of_eq hi rfl, rfl⟩)
    · exact .keep
  case h_8 hi =>
    split
    · rename_i aat haat
      split_ifs
      · refine .merge ?_ (.inl ⟨isPlain_of_eq hi rfl, rfl⟩)
        revert haat
        cases pi.op <;> simp [SQOpcode.isPlain, appendArrayType]
      · exact .keep
    · exact .keep
  case h_9 hi =>
    split_ifs with h h'
    · have hpi : pi.op.isPlain = true := by
        revert h
        cases pi.op <;> simp [SQOpcode.isPlain]
      exact .merge hpi (.inl ⟨isPlain_of_eq hi rfl, hpi⟩)
    · exact .merge (isPlain_of_eq h' rfl) (.inl ⟨isPlain_of_eq hi rfl, rfl⟩)
    · exact .keep
  case h_10 hi =>
    split_ifs with h
    · exact .merge (isPlain_of_eq h.1 rfl) (.inl ⟨isPlain_of_eq hi rfl, rfl⟩)
    · exact .keep
  case h_11 hi | h_12 hi =>
    split_ifs with h
    · exact .merge (isPlain_of_eq h.1 rfl)
        (.inl ⟨isPlain_of_eq hi rfl, isPlain_of_eq hi rfl⟩)
    · exact .keep
  case h_13 hi =>
    split_ifs with h
    · exact .merge (isPlain_of_eq h.1 rfl) (.inl ⟨isPlain_of_eq hi rfl, isPlain_of_eq h.1 rfl⟩)
    · exact .keep
  case h_14 hi =>
    split_ifs with h
    · exact .merge (isPlain_of_eq h rfl) (.inl ⟨isPlain_of_eq hi rfl, isPlain_of_eq hi rfl⟩)
    · exact .keep
  case h_15 => exact .keep

theorem added (fs : SQFuncState) (i : SQInstruction) :
    Added fs i (fs.addInstruction i).instructions := by
  unfold SQFuncState.addInstruction
  split
  · rename_i pi hlast
    obtain ⟨l, hcode⟩ : ∃ l, fs.instructions = l ++ [pi] :=
      ⟨_, (List.dropLast_append_getLast? pi hlast).symm⟩
    have hdrop : fs.instructions.dropLast = l := by rw [hcode, List.dropLast_concat]
    have hpush : ∀ i, l ++ [pi, i] = fs.instructions ++ [i] := by simp [hcode]
    rw [hdrop]
    split_ifs with hopt
    · have hspec := fuse_spec fs pi i
      generalize fs.fuse pi i = fused at hspec
      cases hspec with
      | keep =>
        simp only [hpush]
        exact .push (.inl rfl)
      | blank hi =>
        simp only [hpush]
        exact .push (.inr ⟨hi, rfl⟩)
      | tail hpi hi => exact .tail hcode hpi hi
      | merge hpi hi => exact .merge hopt.2 hcode hpi hi
    · exact .push (.inl rfl)
  · exact .push (.inl rfl)

/-- What instructions and expressions leave as it is. -/
structure Steady (fs fs' : SQFuncState) : Prop where
  traps : fs'.traps = fs.traps
  breaktargets : fs'.breaktargets = fs.breaktargets
  continuetargets : fs'.continuetargets = fs.continuetargets
  unresolvedbreaks : fs'.unresolvedbreaks = fs.unresolvedbreaks
  unresolvedcontinues : fs'.unresolvedcontinues = fs.unresolvedcontinues
  notes : fs'.notes = fs.notes

theorem Steady.rfl : Steady fs fs := ⟨.refl _, .refl _, .refl _, .refl _, .refl _, .refl _⟩

theorem Steady.trans (h : Steady fs fs') (h' : Steady fs' fs'') : Steady fs fs'' where
  traps := h'.traps.trans h.traps
  breaktargets := h'.breaktargets.trans h.breaktargets
  continuetargets := h'.continuetargets.trans h.continuetargets
  unresolvedbreaks := h'.unresolvedbreaks.trans h.unresolvedbreaks
  unresolvedcontinues := h'.unresolvedcontinues.trans h.unresolvedcontinues
  notes := h'.notes.trans h.notes

theorem steady_addInstruction (fs : SQFuncState) (i : SQInstruction) :
    Steady fs (fs.addInstruction i) := by
  unfold SQFuncState.addInstruction
  split
  · split_ifs
    · split <;> exact ⟨.refl _, .refl _, .refl _, .refl _, .refl _, .refl _⟩
    · exact ⟨.refl _, .refl _, .refl _, .refl _, .refl _, .refl _⟩
  · exact ⟨.refl _, .refl _, .refl _, .refl _, .refl _, .refl _⟩

theorem steady_modifyInstruction (fs : SQFuncState) (pos : ℤ)
    (f : SQInstruction → SQInstruction) : Steady fs (fs.modifyInstruction pos f) := by
  unfold SQFuncState.modifyInstruction
  split_ifs
  · exact ⟨.refl _, .refl _, .refl _, .refl _, .refl _, .refl _⟩
  · exact .rfl

/-- The instruction at `n` is plain, or a jump to somewhere from `b` to `e`. -/
def Inside (b e n : ℕ) (i : SQInstruction) : Prop :=
  i.op.isPlain = true ∨ i.op ∈ [SQOpcode.JMP, .JZ, .JCMP, .AND, .OR] ∧
    ∃ t : ℕ, (n : ℤ) + 1 + i.arg1 = t ∧ b ≤ t ∧ t ≤ e

theorem Inside.mono {b e e' n : ℕ} (h : Inside b e n i) (he : e ≤ e') : Inside b e' n i := by
  rcases h with h | ⟨hop, t, ht, hb, hle⟩
  · exact .inl h
  · exact .inr ⟨hop, t, ht, hb, hle.trans he⟩

/-- After `base`, which is not changed any more, come plain instructions and jumps that go to
`e` at most. -/
structure LocalTo (base : List SQInstruction) (e : ℕ) (fs : SQFuncState) : Prop where
  code : ∃ l, fs.instructions = base ++ l ∧
    (l = [] → fs.optimization = false ∨ ∀ pi, base.getLast? = some pi → pi.op.isPlain = false)
  inside : ∀ n i, base.length ≤ n → fs.instructions[n]? = some i → Inside base.length e n i

/-- After `base` comes the code of expressions. -/
abbrev Local (base : List SQInstruction) (fs : SQFuncState) : Prop :=
  LocalTo base fs.instructions.length fs

theorem Local.congr (h : Local base fs) (hcode : fs'.instructions = fs.instructions)
    (hopt : fs'.optimization = fs.optimization) : Local base fs' := by
  refine ⟨?_, ?_⟩
  · rw [hcode, hopt]
    exact h.code
  · rw [hcode]
    exact h.inside

theorem LocalTo.mono {e e' : ℕ} (h : LocalTo base e fs) (he : e ≤ e') : LocalTo base e' fs :=
  ⟨h.code, fun n i hn hi => (h.inside n i hn hi).mono he⟩

theorem Local.snoozeOpt (h : Local base fs) : Local base fs.snoozeOpt := by
  obtain ⟨l, hcode, -⟩ := h.code
  exact ⟨⟨l, hcode, fun _ => .inl rfl⟩, h.inside⟩

/-- Code from `b` on that ends with a new or changed instruction. -/
theorem inside_concat {b n : ℕ} {l : List SQInstruction} {e : ℕ} {j : SQInstruction}
    (hl : ∀ n i, b ≤ n → l[n]? = some i → Inside b e n i) (hj : Inside b e l.length j)
    (hn : b ≤ n) (hi : (l ++ [j])[n]? = some i) : Inside b e n i := by
  rcases Nat.lt_trichotomy n l.length with hlt | rfl | hlt
  · rw [List.getElem?_append_left hlt] at hi
    exact hl n i hn hi
  · rw [List.getElem?_concat_length] at hi
    cases hi
    exact hj
  · rw [List.getElem?_eq_none (by simp; omega)] at hi
    cases hi

/-- A plain instruction, or a jump that has no target yet. -/
def SQInstruction.IsLocal (i : SQInstruction) : Prop :=
  i.op.isPlain = true ∨ i.op ∈ [SQOpcode.JMP, .JZ, .AND, .OR] ∧ i.arg1 = 0

theorem SQInstruction.IsLocal.ne_return (h : i.IsLocal) : i.op ≠ .RETURN := by
  intro hi
  simp [SQInstruction.IsLocal, hi, SQOpcode.isPlain] at h

/-- Changing the last instruction of an expression. -/
theorem LocalTo.merge {e : ℕ} (h : LocalTo base e fs) {l : List SQInstruction}
    {pi' : SQInstruction} (hopt : fs.optimization = true) (hcode : fs.instructions = l ++ [pi])
    (hpi : pi.op.isPlain = true) (hcode' : fs'.instructions = l ++ [pi'])
    (hpi' : Inside base.length e l.length pi') : LocalTo base e fs' := by
  obtain ⟨l₀, hl₀, hempty⟩ := h.code
  rcases List.eq_nil_or_concat' l₀ with rfl | ⟨l₁, x, rfl⟩
  · rcases hempty rfl with hfalse | hlast
    · rw [hopt] at hfalse
      cases hfalse
    · rw [List.append_nil] at hl₀
      rw [hlast pi (by rw [← hl₀, hcode]; simp)] at hpi
      cases hpi
  · rw [hcode, ← List.append_assoc] at hl₀
    obtain ⟨rfl, -⟩ := List.append_inj' hl₀ rfl
    refine ⟨⟨l₁ ++ [pi'], by rw [hcode', List.append_assoc], by simp⟩, fun n j hn hj => ?_⟩
    rw [hcode'] at hj
    refine inside_concat (fun m k hm hk => h.inside m k hm ?_) hpi' hn hj
    rw [hcode]
    exact (List.getElem?_append_left (List.getElem?_eq_some_iff.mp hk).1).trans hk

private theorem LocalTo.lt_of_merge {e : ℕ} (h : LocalTo base e fs) {l : List SQInstruction}
    (hopt : fs.optimization = true) (hcode : fs.instructions = l ++ [pi])
    (hpi : pi.op.isPlain = true) : base.length < fs.instructions.length := by
  obtain ⟨l₀, hl₀, hempty⟩ := h.code
  cases l₀ with
  | nil =>
    rcases hempty rfl with hfalse | hlast
    · rw [hopt] at hfalse
      cases hfalse
    · rw [List.append_nil] at hl₀
      rw [hlast pi (by rw [← hl₀, hcode]; simp)] at hpi
      cases hpi
  | cons => simp [hl₀]

theorem LocalTo.base_le {e : ℕ} (h : LocalTo base e fs) :
    base.length ≤ fs.instructions.length := by
  obtain ⟨l, hcode, -⟩ := h.code
  simp [hcode]

/-- Adding an instruction that is plain, or jumps to `e` at most from where it comes to be. -/
theorem LocalTo.add {e : ℕ} (h : LocalTo base e fs)
    (hi : Inside base.length e ((fs.addInstruction i).instructions.length - 1) i) :
    LocalTo base e (fs.addInstruction i) := by
  have hadded := added fs i
  generalize fs.addInstruction i = fs' at hadded hi ⊢
  generalize hcode' : fs'.instructions = code' at hadded hi
  have hret : i.op ≠ .RETURN := by
    intro hop
    simp [Inside, hop, SQOpcode.isPlain] at hi
  cases hadded with
  | @push i' hi' =>
    obtain ⟨l, hcode, -⟩ := h.code
    rw [List.length_append, List.length_singleton, Nat.add_sub_cancel] at hi
    have hinside : Inside base.length e fs.instructions.length i' := by
      rcases hi' with rfl | ⟨-, rfl⟩ <;> exact hi
    refine ⟨⟨l ++ [i'], by rw [hcode', hcode, List.append_assoc], by simp⟩, ?_⟩
    rw [hcode']
    intro n j hn hj
    exact inside_concat (fun m k hm hk => h.inside m k hm hk) hinside hn hj
  | @merge l pi pi' hopt hpicode hpi hi' =>
    rw [List.length_append, List.length_singleton, Nat.add_sub_cancel] at hi
    refine h.merge hopt hpicode hpi hcode' ?_
    rcases hi' with ⟨-, hplain⟩ | ⟨hop, hjcmp, harg⟩ | ⟨hop, -⟩
    · exact .inl hplain
    · rcases hi with hplain | ⟨-, t, ht, hb, he⟩
      · rw [hop] at hplain
        cases hplain
      · exact .inr ⟨by simp [hjcmp], t, harg ▸ ht, hb, he⟩
    · exact absurd hop hret
  | tail _ _ hop => exact absurd hop hret

theorem LocalTo.lt_of_add {e : ℕ} (h : LocalTo base e fs) (hi : i.op ≠ .RETURN) :
    base.length < (fs.addInstruction i).instructions.length := by
  have hadded := added fs i
  have hbase := h.base_le
  generalize (fs.addInstruction i).instructions = code' at hadded ⊢
  cases hadded with
  | push =>
    rw [List.length_append, List.length_singleton]
    omega
  | merge hopt hcode hpi =>
    have hlt := h.lt_of_merge hopt hcode hpi
    rw [hcode] at hlt
    simpa using hlt
  | tail _ _ hop => exact absurd hop hi

theorem length_le_addInstruction (fs : SQFuncState) (i : SQInstruction) :
    fs.instructions.length ≤ (fs.addInstruction i).instructions.length := by
  have hadded := added fs i
  generalize (fs.addInstruction i).instructions = code' at hadded ⊢
  cases hadded with
  | push => simp
  | merge _ hcode => simp [hcode]
  | tail hcode => simp [hcode]

theorem Local.add (h : Local base fs) (hi : i.IsLocal) : Local base (fs.addInstruction i) := by
  have hlt := LocalTo.lt_of_add h hi.ne_return
  refine (h.mono (length_le_addInstruction fs i)).add ?_
  rcases hi with hplain | ⟨hop, harg⟩
  · exact .inl hplain
  · refine .inr ⟨?_, (fs.addInstruction i).instructions.length, by omega, hlt.le, le_rfl⟩
    revert hop
    cases i.op <;> simp

/-- Expressions may merge their first instruction with a plain one before them. -/
def Start (base : List SQInstruction) (fs : SQFuncState) : Prop :=
  fs.instructions = base ∨ ∃ pi, fs.instructions = base ++ [pi] ∧ pi.op.isPlain = true

theorem exists_start (fs : SQFuncState) : ∃ base, Start base fs ∧ Local base fs := by
  rcases List.eq_nil_or_concat' fs.instructions with hnil | ⟨l, pi, hcode⟩
  · refine ⟨[], .inl hnil, ⟨[], hnil, fun _ => .inr (by simp)⟩, fun n i _ hi => ?_⟩
    rw [hnil] at hi
    cases hi
  · by_cases hpi : pi.op.isPlain = true
    · refine ⟨l, .inr ⟨pi, hcode, hpi⟩, ⟨[pi], hcode, by simp⟩, fun n i hn hi => ?_⟩
      rw [hcode] at hi
      have hnone : ∀ (m : ℕ) j, l.length ≤ m → l[m]? = some j → Inside l.length
          fs.instructions.length m j := fun m j hm hj => by
        rw [List.getElem?_eq_none hm] at hj
        cases hj
      exact inside_concat hnone (.inl hpi) hn hi
    · refine ⟨l ++ [pi], .inl hcode, ⟨[], by simp [hcode], fun _ => .inr ?_⟩, fun n i hn hi => ?_⟩
      · intro pi' hlast
        obtain rfl : pi = pi' := by simpa using hlast
        exact Bool.eq_false_iff.mpr hpi
      · rw [hcode, List.getElem?_eq_none hn] at hi
        cases hi

theorem Start.le (h : Start base fs) : base.length ≤ fs.instructions.length := by
  rcases h with h | ⟨pi, h, -⟩ <;> simp [h]

theorem start_of_snoozed (h : fs.optimization = false) : Local fs.instructions fs := by
  refine ⟨⟨[], by simp, fun _ => .inl h⟩, fun n i hn hi => ?_⟩
  rw [List.getElem?_eq_none hn] at hi
  cases hi

theorem modify_self {l : List SQInstruction} {m : ℕ} {f : SQInstruction → SQInstruction}
    {n : ℕ} {i : SQInstruction} (h : (l.modify m f)[n]? = some i) :
    ∃ j, l[n]? = some j ∧ i = if m = n then f j else j := by
  rw [List.getElem?_modify] at h
  obtain ⟨j, hj, hf⟩ := Option.map_eq_some_iff.mp h
  exact ⟨j, hj, by rw [← hf]⟩

theorem modifyInstruction_of_nonneg {pos : ℤ} {f : SQInstruction → SQInstruction} {m : ℕ}
    (hpos : pos = m) : fs.modifyInstruction pos f =
      { fs with instructions := fs.instructions.modify m f } := by
  subst hpos
  unfold SQFuncState.modifyInstruction
  rw [if_pos (Int.natCast_nonneg m), Int.toNat_natCast]

theorem modify_append {l : List SQInstruction} {m : ℕ} {f : SQInstruction → SQInstruction}
    (h : base.length ≤ m) : (base ++ l).modify m f = base ++ l.modify (m - base.length) f := by
  apply List.ext_getElem?
  intro n
  rcases Nat.lt_or_ge n base.length with hn | hn
  · rw [List.getElem?_modify_ne _ _ (by omega), List.getElem?_append_left hn,
      List.getElem?_append_left hn]
  · rw [List.getElem?_modify, List.getElem?_append_right hn, List.getElem?_append_right hn,
      List.getElem?_modify]
    have hiff : m = n ↔ m - base.length = n - base.length := by omega
    simp only [hiff]

/-- Patching a jump of an expression. -/
theorem Local.setArg1 (h : Local base fs) {pos val : ℤ} {m t : ℕ} (hpos : pos = m)
    (hm : base.length ≤ m) (ht : (m : ℤ) + 1 + val = t) (hb : base.length ≤ t)
    (he : t ≤ fs.instructions.length) : Local base (fs.setArg1 pos val) := by
  obtain ⟨l, hcode, hempty⟩ := h.code
  rw [SQFuncState.setArg1, modifyInstruction_of_nonneg hpos]
  refine ⟨⟨l.modify (m - base.length) fun i => { i with arg1 := val }, ?_, fun hnil => ?_⟩, ?_⟩
  · simp only [hcode]
    exact modify_append hm
  · exact hempty (List.modify_eq_nil_iff.mp hnil)
  · intro n i hn hi
    simp only [List.length_modify]
    obtain ⟨j, hj, rfl⟩ := modify_self hi
    have hinside := h.inside n j hn hj
    split_ifs with hmn
    · subst hmn
      rcases hinside with hplain | ⟨hop, -⟩
      · exact .inl hplain
      · exact .inr ⟨hop, t, ht, hb, he⟩
    · exact hinside

theorem Local.discardTarget (h : Local base fs) :
    Local base fs.discardTarget ∧
      fs.discardTarget.instructions.length = fs.instructions.length := by
  have hpop : Local base fs.popTarget := h.congr rfl rfl
  unfold SQFuncState.discardTarget
  dsimp only
  split
  · rename_i pi hlast
    obtain ⟨l, hcode⟩ : ∃ l, fs.popTarget.instructions = l ++ [pi] :=
      ⟨_, (List.dropLast_append_getLast? pi hlast).symm⟩
    split_ifs with hopt
    · have hpi : pi.op.isPlain = true := by
        have hop := hopt.2.2.1
        revert hop
        cases pi.op <;> simp [SQOpcode.isPlain]
      have hdrop : fs.popTarget.instructions.dropLast = l := by rw [hcode, List.dropLast_concat]
      have hlen : fs.instructions.length = l.length + 1 := by
        change fs.popTarget.instructions.length = _
        rw [hcode, List.length_append, List.length_singleton]
      rw [hdrop]
      have hmerge : LocalTo base fs.popTarget.instructions.length
          { fs.popTarget with instructions := l ++ [{ pi with arg0 := 0xFF }] } :=
        hpop.merge hopt.2.1 hcode hpi rfl (.inl hpi)
      exact ⟨hmerge.mono (by simp [hcode]), by simp [hlen]⟩
    · exact ⟨hpop, rfl⟩
  · exact ⟨hpop, rfl⟩

/-- From `fs` to `fs'` there is code of expressions only. -/
structure Emits (base : List SQInstruction) (fs fs' : SQFuncState) : Prop where
  loc : Local base fs'
  le : fs.instructions.length ≤ fs'.instructions.length
  steady : Steady fs fs'

theorem Emits.trans (h : Emits base fs fs') (h' : Emits base fs' fs'') : Emits base fs fs'' :=
  ⟨h'.loc, h.le.trans h'.le, h.steady.trans h'.steady⟩

theorem Local.emits_of_eq (h : Local base fs) (hcode : fs'.instructions = fs.instructions)
    (hopt : fs'.optimization = fs.optimization) (hsteady : Steady fs fs') : Emits base fs fs' :=
  ⟨h.congr hcode hopt, hcode ▸ le_rfl, hsteady⟩

theorem Local.emits_add (h : Local base fs) (hi : i.IsLocal) :
    Emits base fs (fs.addInstruction i) :=
  ⟨h.add hi, length_le_addInstruction fs i, steady_addInstruction fs i⟩

theorem steady_popTarget (fs : SQFuncState) : Steady fs fs.popTarget :=
  ⟨rfl, rfl, rfl, rfl, rfl, rfl⟩

theorem Local.emits_popTarget (h : Local base fs) : Emits base fs fs.popTarget :=
  h.emits_of_eq rfl rfl (steady_popTarget fs)

private theorem steady_pushTarget (fs : SQFuncState) (n : Option ℕ) : Steady fs (fs.pushTarget n)
    := by
  cases n <;> exact ⟨rfl, rfl, rfl, rfl, rfl, rfl⟩

private theorem Local.emits_pushTarget (h : Local base fs) (n : Option ℕ) :
    Emits base fs (fs.pushTarget n) := by
  cases n <;> exact h.emits_of_eq rfl rfl (steady_pushTarget fs _)

theorem Local.emits_snoozeOpt (h : Local base fs) : Emits base fs fs.snoozeOpt :=
  ⟨h.snoozeOpt, le_rfl, ⟨rfl, rfl, rfl, rfl, rfl, rfl⟩⟩

private theorem steady_discardTarget (fs : SQFuncState) : Steady fs fs.discardTarget := by
  unfold SQFuncState.discardTarget
  dsimp only
  split
  · split_ifs <;> exact ⟨rfl, rfl, rfl, rfl, rfl, rfl⟩
  · exact steady_popTarget fs

/-- The move of a value to the target of an expression, where it is not there. -/
theorem Local.emits_addMove (h : Local base fs) (source trg exp : ℕ) :
    Emits base fs (fs.addMove source trg exp) := by
  unfold SQFuncState.addMove
  split_ifs
  · exact h.emits_add (.inl rfl)
  · exact ⟨h, le_rfl, .rfl⟩

private theorem Local.emits_setArg1 (h : Local base fs) (pos val : ℤ) (m t : ℕ) (hpos : pos = m)
    (hm : base.length ≤ m) (ht : (m : ℤ) + 1 + val = t) (hb : base.length ≤ t)
    (he : t ≤ fs.instructions.length) : Emits base fs (fs.setArg1 pos val) := by
  refine ⟨h.setArg1 hpos hm ht hb he, ?_, steady_modifyInstruction _ _ _⟩
  rw [SQFuncState.setArg1, modifyInstruction_of_nonneg hpos]
  simp

/-- What is never merged and never changed. -/
def SQOpcode.IsPushed (op : SQOpcode) : Prop :=
  op ∈ [JMP, AND, OR, PUSHTRAP, POPTRAP, THROW, FOREACH, POSTFOREACH, YIELD]

theorem instructions_add (hi : i.op.IsPushed) :
    (fs.addInstruction i).instructions = fs.instructions ++ [i] := by
  have hadded := added fs i
  have hno : ¬ (i.op.isPlain = true) ∧ i.op ≠ .JZ ∧ i.op ≠ .RETURN := by
    revert hi
    unfold SQOpcode.IsPushed
    cases i.op <;> simp [SQOpcode.isPlain]
  generalize (fs.addInstruction i).instructions = code' at hadded ⊢
  cases hadded with
  | push hi' =>
    rcases hi' with rfl | ⟨hplain | hjz, -⟩
    · rfl
    · exact absurd hplain hno.1
    · exact absurd hjz hno.2.1
  | merge _ _ _ hi' =>
    rcases hi' with ⟨hplain, -⟩ | ⟨hjz, -⟩ | ⟨hret, -⟩
    · exact absurd hplain hno.1
    · exact absurd hjz hno.2.1
    · exact absurd hret hno.2.2
  | tail _ _ hret => exact absurd hret hno.2.2

theorem Local.emit (e : Exp) (source : ℕ) (h : Local base fs) :
    Emits base fs (e.emit source fs) := by
  induction e generalizing fs with
  | nil => exact ⟨h, le_rfl, .rfl⟩
  | seq e e' ih ih' =>
    have h₁ := ih h
    exact h₁.trans (ih' h₁.loc)
  | instr op plain => exact h.emits_add (.inl plain)
  | pushTarget n => exact h.emits_pushTarget n
  | popTarget => exact h.emits_popTarget
  | discardTarget =>
    have hdiscard := h.discardTarget
    exact ⟨hdiscard.1, hdiscard.2.ge, steady_discardTarget fs⟩
  | pushLocalVariable => exact h.emits_of_eq rfl rfl ⟨rfl, rfl, rfl, rfl, rfl, rfl⟩
  | markLocalAsOuter => exact h.emits_of_eq rfl rfl ⟨rfl, rfl, rfl, rfl, rfl, rfl⟩
  | snoozeOpt => exact h.emits_snoozeOpt
  | logical isOr second ih =>
    simp only [Exp.emit]
    have h₁ : Emits base fs (fs.popTarget.pushTarget none) :=
      h.emits_popTarget.trans (h.emits_popTarget.loc.emits_pushTarget none)
    generalize fs.topTarget = first_exp
    generalize fs.popTarget.pushTarget none = fs₁ at h₁ ⊢
    generalize fs₁.topTarget = trg
    have hop : SQInstruction.IsLocal
        (.ofArgs (some source) (if isOr = true then .OR else .AND) trg 0 first_exp 0) :=
      .inr ⟨by cases isOr <;> simp [SQInstruction.ofArgs], rfl⟩
    have h₂ := h₁.loc.emits_add hop
    have hlt := LocalTo.lt_of_add h₁.loc hop.ne_return
    generalize fs₁.addInstruction _ = fs₂ at h₂ hlt ⊢
    have h₃ := h₂.loc.emits_addMove source trg first_exp
    generalize fs₂.addMove source trg first_exp = fs₃ at h₃ ⊢
    have h₄ := (ih h₃.loc).trans (ih h₃.loc).loc.emits_snoozeOpt
    generalize (second.emit source fs₃).snoozeOpt = fs₄ at h₄ ⊢
    have h₅ := h₄.loc.emits_popTarget
    have h₆ := h₅.loc.emits_addMove source trg fs₄.topTarget
    generalize fs₄.popTarget.addMove source trg fs₄.topTarget = fs₆ at h₆ ⊢
    have h₇ := h₆.loc.emits_snoozeOpt
    have hle : fs₂.instructions.length ≤ fs₆.instructions.length :=
      h₃.le.trans (h₄.le.trans (h₅.le.trans h₆.le))
    have h₈ := h₇.loc.emits_setArg1 fs₂.getCurrentPos
      (fs₆.snoozeOpt.getCurrentPos - fs₂.getCurrentPos)
      (fs₂.instructions.length - 1) (fs₆.instructions.length)
      (by simp only [SQFuncState.getCurrentPos]; omega) (by omega)
      (by simp only [SQFuncState.getCurrentPos, SQFuncState.snoozeOpt]; omega) (by omega) le_rfl
    exact h₁.trans (h₂.trans (h₃.trans (h₄.trans (h₅.trans (h₆.trans (h₇.trans h₈))))))
  | conditional first second ih ih' =>
    simp only [Exp.emit]
    have h₁ := h.emits_popTarget
    generalize fs.topTarget = cond
    generalize fs.popTarget = fs₁ at h₁ ⊢
    have hjz : SQInstruction.IsLocal (.ofArgs (some source) .JZ cond 0 0 0) :=
      .inr ⟨by simp [SQInstruction.ofArgs], rfl⟩
    have h₂ := h₁.loc.emits_add hjz
    have hlt := LocalTo.lt_of_add h₁.loc hjz.ne_return
    generalize fs₁.addInstruction _ = fs₂ at h₂ hlt ⊢
    have h₃ := h₂.loc.emits_pushTarget none
    generalize fs₂.pushTarget none = fs₃ at h₃ ⊢
    generalize fs₃.topTarget = trg
    have h₄ := ih h₃.loc
    generalize first.emit source fs₃ = fs₄ at h₄ ⊢
    have h₅ := h₄.loc.emits_popTarget
    have h₆ := h₅.loc.emits_addMove source trg fs₄.topTarget
    generalize fs₄.popTarget.addMove source trg fs₄.topTarget = fs₆ at h₆ ⊢
    have hjmp : SQInstruction.IsLocal (.ofArgs (some source) .JMP 0 0 0 0) :=
      .inr ⟨by simp [SQInstruction.ofArgs], rfl⟩
    have h₇ := h₆.loc.emits_add hjmp
    have hlen : (fs₆.addInstruction (.ofArgs (some source) .JMP 0 0 0 0)).instructions.length =
        fs₆.instructions.length + 1 := by
      rw [instructions_add (by simp [SQOpcode.IsPushed, SQInstruction.ofArgs])]
      simp
    generalize fs₆.addInstruction _ = fs₇ at h₇ hlen ⊢
    have h₈ := ih' h₇.loc
    generalize second.emit source fs₇ = fs₈ at h₈ ⊢
    have h₉ := h₈.loc.emits_popTarget
    have h₁₀ := h₉.loc.emits_addMove source trg fs₈.topTarget
    generalize fs₈.popTarget.addMove source trg fs₈.topTarget = fs₁₀ at h₁₀ ⊢
    have hle₆ : fs₂.instructions.length ≤ fs₆.instructions.length :=
      h₃.le.trans (h₄.le.trans (h₅.le.trans h₆.le))
    have hle₁₀ : fs₇.instructions.length ≤ fs₁₀.instructions.length :=
      h₈.le.trans (h₉.le.trans h₁₀.le)
    have h₁₁ := h₁₀.loc.emits_setArg1 fs₇.getCurrentPos
      (fs₁₀.getCurrentPos - fs₇.getCurrentPos)
      (fs₇.instructions.length - 1) (fs₁₀.instructions.length)
      (by simp only [SQFuncState.getCurrentPos]; omega) (by omega)
      (by simp only [SQFuncState.getCurrentPos]; omega) (by omega) le_rfl
    have hle₁₁ := h₁₁.le
    have h₁₂ := h₁₁.loc.emits_setArg1 fs₂.getCurrentPos
      (fs₆.getCurrentPos - fs₂.getCurrentPos + 1)
      (fs₂.instructions.length - 1) (fs₆.instructions.length + 1)
      (by simp only [SQFuncState.getCurrentPos]; omega) (by omega)
      (by simp only [SQFuncState.getCurrentPos]; omega) (by omega) (by omega)
    exact h₁.trans (h₂.trans (h₃.trans (h₄.trans (h₅.trans (h₆.trans (h₇.trans (h₈.trans
      (h₉.trans (h₁₀.trans (h₁₁.trans (h₁₂.trans h₁₂.loc.emits_snoozeOpt)))))))))))

end Squirt.SQCompiler
