import Squirt.TrapTyping
import Squirt.StatementEffects

/-!
# Typing the code of statements

Each statement form keeps the invariant of the function under compilation, when its parts do:
it ends with the traps it begins with, and its jumps go to where there are their traps.
-/

namespace Squirt.SQCompiler

variable {fs fs' fs₀ fs₁ fs₂ : SQFuncState} {tags tags' tags₀ : Tags} {T T' Tb Tc : List ℕ}
  {P : List ℤ} {n : ℕ} {lex : Lexical} {body other handler : Compile}

/-- The jump `i` at `k` of an increment goes to the same instruction where the increment is added
again, by the lengths of the code on the way. -/
def KeepsJump (lengths : List ℕ) (k : ℕ) (i : SQInstruction) : Prop :=
  ∃ p ∈ lengths[k + 1]?, ∃ q ∈ lengths[(k + 1 + i.arg1).toNat]?, (q : ℤ) = p + i.arg1

/-- All jumps of the increment do. -/
def Note.Kept : Note → Prop
  | .increment _ exp lengths => ∀ k < exp.length, ∀ i ∈ exp[k]?, i.op.isPlain = false →
    KeepsJump lengths k i
  | _ => True

instance (lengths : List ℕ) (k : ℕ) (i : SQInstruction) : Decidable (KeepsJump lengths k i) :=
  inferInstanceAs (Decidable (∃ p ∈ lengths[k + 1]?,
    ∃ q ∈ lengths[(k + 1 + i.arg1).toNat]?, (q : ℤ) = p + i.arg1))

instance : DecidablePred Note.Kept
  | .increment _ exp lengths => inferInstanceAs (Decidable (∀ k < exp.length,
    ∀ i ∈ exp[k]?, i.op.isPlain = false → KeepsJump lengths k i))
  | .statement _ _ | .jump _ _ => .isTrue trivial

/-- The counts of `fs` for a statement with the traps `T`, in a loop or `switch` with the traps
`Tb` and a loop with the traps `Tc`. -/
structure Context (lex : Lexical) (T Tb Tc : List ℕ) (fs : SQFuncState) : Prop where
  tries : lex.tries = T.length
  traps : fs.traps = T.length
  breaks : ∀ k ks, fs.breaktargets = k :: ks →
    Tb <:+ T ∧ k = T.length - Tb.length ∧ lex.breakTries = Tb.length
  continues : ∀ k ks, fs.continuetargets = k :: ks →
    Tc <:+ T ∧ k = T.length - Tc.length ∧ lex.continueTries = Tc.length

theorem Context.settled (h : Context lex T Tb Tc fs) (hs : Settled fs fs') :
    Context lex T Tb Tc fs' :=
  ⟨h.tries, hs.traps.trans h.traps, fun k ks hk => h.breaks k ks (hs.breaktargets ▸ hk),
    fun k ks hk => h.continues k ks (hs.continuetargets ▸ hk)⟩

/-- Compiling keeps the code typed. -/
structure Compiles (lex : Lexical) (T Tb Tc : List ℕ) (c : Compile) : Prop where
  settles : Settles c
  typed : ∀ fs fs' tags P, c fs = .ok fs' → Invariant fs tags T P → Context lex T Tb Tc fs →
    (∀ note ∈ fs'.notes, note.Kept) →
    ∃ tags', Invariant fs' tags' T P ∧ Compiled fs fs' tags tags' Tb Tc

/-- A step that keeps the code typed with the same traps. -/
def Keeps (fs fs' : SQFuncState) (tags tags' : Tags) (T : List ℕ) (P : List ℤ) : Prop :=
  Invariant fs' tags' T P ∧ ∀ Tb Tc, Compiled fs fs' tags tags' Tb Tc

theorem Emitting.keeps (h : Emitting fs fs') (hinv : Invariant fs tags T P) :
    ∃ tags', Keeps fs fs' tags tags' T P := by
  obtain ⟨base, hstart, hlocal⟩ := exists_start fs
  have hemits := h base hlocal
  exact hinv.emits hstart hemits.loc hemits.le hemits.steady

theorem Settled.kept (h : Settled fs fs') (hkept : ∀ note ∈ fs'.notes, note.Kept) :
    ∀ note ∈ fs.notes, note.Kept := fun note hn => hkept note (h.notes note hn)

/-- What of a step does not matter for the invariant. -/
theorem Invariant.congr (h : Invariant fs tags T P) (hcode : fs'.instructions = fs.instructions)
    (hbreaks : fs'.unresolvedbreaks = fs.unresolvedbreaks)
    (hcontinues : fs'.unresolvedcontinues = fs.unresolvedcontinues)
    (hnotes : fs'.notes = fs.notes) : Invariant fs' tags T P := by
  refine ⟨?_, ?_, ?_, ?_⟩
  · rw [hcode, hbreaks, hcontinues]
    exact h.typed
  · rw [hcode]
    exact h.last
  · rw [hnotes]
    exact h.noted
  · rw [hcode, hnotes]
    exact h.jumps

theorem Compiled.congr (h : Compiled fs fs₁ tags tags' Tb Tc)
    (hcode : fs'.instructions = fs₁.instructions)
    (hbreaks : fs'.unresolvedbreaks = fs₁.unresolvedbreaks)
    (hcontinues : fs'.unresolvedcontinues = fs₁.unresolvedcontinues) :
    Compiled fs fs' tags tags' Tb Tc := by
  refine ⟨⟨h.tags, ?_, ?_⟩, ?_, ?_⟩
  · rw [hcode]
    exact h.le
  · rw [hcode]
    exact h.code
  · rw [hcode, hbreaks]
    exact h.breaks
  · rw [hcode, hcontinues]
    exact h.continues

/-- Pending jumps may be forgotten to be pending elsewhere. -/
theorem Typed.weaken {code : List SQInstruction} {pending pending' : List ℤ}
    (h : Typed code tags pending) (hp : ∀ pos ∈ pending, pos ∈ pending') :
    Typed code tags pending' :=
  ⟨h.length, h.first, h.falls, fun m i T hi hT hpos => h.jumps m i T hi hT fun hmem =>
    hpos (hp _ hmem), h.stack⟩

/-- A jump that can be patched, with the traps `T`. -/
def JumpAt (code : List SQInstruction) (tags : Tags) (n : ℕ) (T : List ℕ) : Prop :=
  ∃ i, code[n]? = some i ∧ i.op ∈ [SQOpcode.JMP, .JZ, .JCMP] ∧ tags[n]? = some T

theorem JumpAt.extends (h : JumpAt fs.instructions tags n T) (he : Extends fs fs' tags tags') :
    JumpAt fs'.instructions tags' n T := by
  obtain ⟨i, hi, hop, hT⟩ := h
  refine ⟨i, he.code n i hi ?_, hop, Tags.get_of_prefix he.tags hT⟩
  revert hop
  cases i.op <;> simp [SQOpcode.isPlain]

private theorem LeavesAt.jumpAt {b : ℕ} {code : List SQInstruction} {pos : ℤ}
    (h : LeavesAt b code tags pos T) : ∃ n : ℕ, pos = n ∧ b ≤ n ∧ JumpAt code tags n T := by
  obtain ⟨n, i, hn, hle, hi, hop, hT⟩ := h
  exact ⟨n, hn, hle, i, hi, by simp [hop], hT⟩

/-- Patching a jump to where there are its traps. -/
theorem Invariant.patchJump {P' : List ℤ} {pos val : ℤ} {f : SQInstruction → SQInstruction}
    (h : Invariant fs tags T' P) (hj : JumpAt fs.instructions tags n T) (hpos : pos = n)
    (hf : ∀ i, (f i).op = i.op) (hval : ∀ i, (f i).arg1 = val)
    (htarget : tags.At (pos + 1 + val) T) (hP : ∀ pos ∈ P, pos = n ∨ pos ∈ P') :
    Invariant (fs.modifyInstruction pos f) tags T' P' := by
  obtain ⟨i, hi, hop, hT⟩ := hj
  refine h.patch _ hpos hi hf ?_ hT (.inr ?_) hP
  · intro hpop
    simp [hpop] at hop
  · subst hpos
    unfold Tags.Jumps
    rw [hf i, hval i]
    split <;> simp_all

/-- The position of the next instruction. -/
theorem Invariant.at_next (h : Invariant fs tags T P) : tags.At (fs.getCurrentPos + 1) T :=
  ⟨fs.instructions.length, by simp [SQFuncState.getCurrentPos], h.last⟩

theorem Compiled.fresh (h : Compiled fs fs' tags tags' Tb Tc) (hf : Fresh fs' n) :
    Fresh fs n := by
  intro i hi
  by_contra hop
  exact hop (hf i (h.code n i hi (Bool.eq_false_iff.mpr hop)))

/-- The jump that was added last, or made of the last instruction. -/
theorem jz_position (fs : SQFuncState) {i : SQInstruction} (hi : i.op = .JZ) :
    ∃ m : ℕ, (fs.addInstruction i).getCurrentPos = m ∧ Fresh fs m ∧
      ∃ j, (fs.addInstruction i).instructions[m]? = some j ∧ j.op ∈ [SQOpcode.JZ, .JCMP] ∧
        j.arg1 = i.arg1 := by
  have hadded := added fs i
  unfold SQFuncState.getCurrentPos
  generalize (fs.addInstruction i).instructions = code' at hadded ⊢
  cases hadded with
  | @push i' hi' =>
    refine ⟨fs.instructions.length, by simp, fresh_of_le le_rfl, i', by simp, ?_⟩
    rcases hi' with rfl | ⟨-, rfl⟩ <;> simp [hi]
  | @merge l pi pi' hopt hcode hpi hi' =>
    refine ⟨l.length, by simp, fun j hj => ?_, pi', by simp, ?_⟩
    · rw [hcode, List.getElem?_concat_length] at hj
      cases hj
      exact hpi
    · rcases hi' with ⟨hplain, -⟩ | ⟨-, hop, harg⟩ | ⟨hret, -⟩
      · rw [hi] at hplain
        cases hplain
      · simp [hop, harg]
      · rw [hi] at hret
        cases hret
  | tail _ _ hret =>
    rw [hi] at hret
    cases hret

/-- A conditional jump has the same traps as what comes next. -/
theorem Invariant.jumpAt_jz (h : Invariant fs tags T P) {i : SQInstruction}
    (hpos : fs.getCurrentPos = n) (hi : fs.instructions[n]? = some i)
    (hop : i.op ∈ [SQOpcode.JZ, .JCMP]) : JumpAt fs.instructions tags n T := by
  have hlen : fs.instructions.length = n + 1 := by
    unfold SQFuncState.getCurrentPos at hpos
    omega
  have hn : n < tags.length := by
    rw [h.typed.length]
    omega
  have hfalls := h.typed.falls n i _ hi (List.getElem?_eq_getElem hn)
  have hnext : tags[n + 1]? = some tags[n] := by
    revert hfalls hop
    unfold Tags.Falls
    rcases i with ⟨op, _, _, _, _, _⟩
    cases op <;> simp
  rw [← hlen, h.last] at hnext
  refine ⟨i, hi, ?_, by rw [List.getElem?_eq_getElem hn, hnext]⟩
  revert hop
  cases i.op <;> simp

/-- Adding a conditional jump that has no target yet. -/
theorem Invariant.add_jz (h : Invariant fs tags T P) (i : SQInstruction) (hi : i.op = .JZ)
    (harg : i.arg1 = 0) : ∃ tags' m, Keeps fs (fs.addInstruction i) tags tags' T P ∧
      (fs.addInstruction i).getCurrentPos = (m : ℕ) ∧ Fresh fs m ∧
      JumpAt (fs.addInstruction i).instructions tags' m T := by
  have hlocal : i.IsLocal := .inr ⟨by simp [hi], harg⟩
  obtain ⟨tags', hkeeps⟩ := (Emitting.addInstruction hlocal fs).keeps h
  obtain ⟨m, hm, hfresh, j, hj, hop, -⟩ := jz_position fs hi
  exact ⟨tags', m, hkeeps, hm, hfresh, hkeeps.1.jumpAt_jz hm hj hop⟩

theorem Keeps.trans {tags'' : Tags} (h : Keeps fs fs₁ tags tags' T P)
    (h' : Keeps fs₁ fs₂ tags' tags'' T P) : Keeps fs fs₂ tags tags'' T P :=
  ⟨h'.1, fun Tb Tc => (h.2 Tb Tc).trans (h'.2 Tb Tc)⟩

/-- A condition and its jump. -/
theorem Invariant.emitJz (h : Invariant fs tags T P) (cond : Labelled) :
    ∃ tags' m, Keeps fs (cond.emitJz fs 0) tags tags' T P ∧
      (cond.emitJz fs 0).getCurrentPos = (m : ℕ) ∧ Fresh fs m ∧
      JumpAt (cond.emitJz fs 0).instructions tags' m T := by
  obtain ⟨tags₁, hkeeps₁⟩ := ((Emitting.labelled cond fs).trans (.popTarget _)).keeps h
  obtain ⟨tags₂, m, hkeeps₂, hm, hfresh, hjump⟩ := hkeeps₁.1.add_jz
    (.ofArgs (some cond.label) .JZ (cond.emit fs).topTarget 0 0 0) rfl rfl
  exact ⟨tags₂, m, hkeeps₁.trans hkeeps₂, hm, (hkeeps₁.2 T T).fresh hfresh, hjump⟩

/-- Adding a jump that has no target yet. -/
theorem Invariant.add_jmp (h : Invariant fs tags T P) :
    ∃ tags', Keeps fs (fs.add .JMP 0 0 0 0) tags tags' T P ∧
      (fs.add .JMP 0 0 0 0).getCurrentPos = fs.instructions.length ∧
      JumpAt (fs.add .JMP 0 0 0 0).instructions tags' fs.instructions.length T := by
  have hlocal : SQInstruction.IsLocal (.ofArgs none .JMP 0 0 0 0) :=
    .inr ⟨by simp [SQInstruction.ofArgs], rfl⟩
  have hcode : (fs.add .JMP 0 0 0 0).instructions =
      fs.instructions ++ [.ofArgs none .JMP 0 0 0 0] :=
    instructions_add (by simp [SQOpcode.IsPushed, SQInstruction.ofArgs])
  obtain ⟨tags', hkeeps⟩ := (Emitting.addInstruction hlocal fs).keeps h
  refine ⟨tags', hkeeps, by simp [SQFuncState.getCurrentPos, hcode], .ofArgs none .JMP 0 0 0 0,
    by simp [hcode], by simp [SQInstruction.ofArgs],
    Tags.get_of_prefix (hkeeps.2 T T).tags h.last⟩

/-- Adding a jump back, behind `jmppos`. -/
theorem Invariant.jumpBack (h : Invariant fs tags T P) {jmppos : ℤ}
    (htarget : tags.At (jmppos + 1) T) :
    ∃ tags', Keeps fs (fs.add .JMP 0 (jmppos - fs.getCurrentPos - 1) 0 0) tags tags' T P := by
  refine ⟨tags ++ [T], h.push _ _ (instructions_add (by simp [SQOpcode.IsPushed,
    SQInstruction.ofArgs])) (steady_addInstruction _ _) ?_ (.inr ?_) (fun _ hp => hp)
    (.inl (List.mem_of_getElem? h.last))⟩
  · simp [Tags.Falls, SQInstruction.ofArgs]
  · simp only [Tags.Jumps, SQInstruction.ofArgs, SQFuncState.getCurrentPos]
    have heq : (fs.instructions.length : ℤ) + 1 +
        (jmppos - (fs.instructions.length - 1) - 1) = jmppos + 1 := by omega
    rw [heq]
    exact htarget.mono ⟨[T], rfl⟩

section Resolve

variable {b : ℕ} {bs rest : List ℤ}

/-- A jump that is taken from a list of unresolved ones is still to be patched. -/
theorem Invariant.take_break {pos : ℤ} {l : List ℤ} (h : Invariant fs tags T P)
    (hl : fs.unresolvedbreaks = pos :: l) :
    Invariant { fs with unresolvedbreaks := l } tags T (pos :: P) := by
  refine ⟨h.typed.weaken fun p hp => ?_, h.last, h.noted, h.jumps⟩
  rw [hl] at hp
  simp only [List.mem_append, List.mem_cons] at hp ⊢
  tauto

private theorem Invariant.take_continue {pos : ℤ} {l : List ℤ} (h : Invariant fs tags T P)
    (hl : fs.unresolvedcontinues = pos :: l) :
    Invariant { fs with unresolvedcontinues := l } tags T (pos :: P) := by
  refine ⟨h.typed.weaken fun p hp => ?_, h.last, h.noted, h.jumps⟩
  rw [hl] at hp
  simp only [List.mem_append, List.mem_cons] at hp ⊢
  tauto

/-- What resolving jumps to a place with the traps `T'` does, seen from `fs₀`. -/
structure Resolved (fs₀ fs fs' : SQFuncState) (tags₀ tags : Tags) (T : List ℕ) (P : List ℤ) :
    Prop where
  invariant : Invariant fs' tags T P
  extends_ : Extends fs₀ fs' tags₀ tags
  length : fs'.instructions.length = fs.instructions.length
  leaves : ∀ b pos T, LeavesAt b fs.instructions tags pos T →
    LeavesAt b fs'.instructions tags pos T

/-- Patching one of them. -/
theorem Resolved.patch {pos val : ℤ} (h : Invariant fs tags T (pos :: P))
    (he : Extends fs₀ fs tags₀ tags) (hpos : LeavesAt fs₀.instructions.length fs.instructions
      tags pos T') (htarget : tags.At (pos + 1 + val) T') :
    Resolved fs₀ fs (fs.setIntructionParams pos 0 val) tags₀ tags T P := by
  obtain ⟨n, hn, hle, hjump⟩ := hpos.jumpAt
  refine ⟨h.patchJump hjump hn (fun _ => rfl) (fun _ => rfl) htarget fun p hp => ?_,
    he.patch hn (fresh_of_le hle) _, ?_, fun b p T hl => hl.patch hn fun _ => rfl⟩
  · rcases List.mem_cons.mp hp with rfl | hp
    · exact .inl hn
    · exact .inr hp
  · unfold SQFuncState.setIntructionParams
    rw [instructions_modifyInstruction hn, List.length_modify]

theorem Invariant.resolveBreaks (h : Invariant fs tags T P) (he : Extends fs₀ fs tags₀ tags)
    (hbs : fs.unresolvedbreaks = bs ++ rest)
    (hleaves : ∀ pos ∈ bs, LeavesAt fs₀.instructions.length fs.instructions tags pos T) :
    Resolved fs₀ fs (SQFuncState.resolveBreaks bs.length fs) tags₀ tags T P ∧
      (SQFuncState.resolveBreaks bs.length fs).unresolvedbreaks = rest ∧
      (SQFuncState.resolveBreaks bs.length fs).unresolvedcontinues =
        fs.unresolvedcontinues := by
  induction bs generalizing fs with
  | nil => exact ⟨⟨h, he, rfl, fun _ _ _ hl => hl⟩, hbs, rfl⟩
  | cons pos bs ih =>
    rw [List.cons_append] at hbs
    simp only [List.length_cons, SQFuncState.resolveBreaks, hbs]
    have htake := h.take_break hbs
    generalize hfs₁ : { fs with unresolvedbreaks := bs ++ rest } = fs₁ at htake
    have hcode : fs₁.instructions = fs.instructions := by rw [← hfs₁]
    have he₁ : Extends fs₀ fs₁ tags₀ tags := ⟨he.tags, hcode ▸ he.le, hcode ▸ he.code⟩
    have hpos := hleaves pos List.mem_cons_self
    rw [← hcode] at hpos
    have htarget : tags.At (pos + 1 + (fs₁.getCurrentPos - pos)) T := by
      have hnext := htake.at_next
      rwa [show pos + 1 + (fs₁.getCurrentPos - pos) = fs₁.getCurrentPos + 1 by omega]
    have hpatch := Resolved.patch htake he₁ hpos htarget
    have hsteady := steady_modifyInstruction fs₁ pos
      (fun i => { i with arg0 := .ofInt 8 0, arg1 := fs₁.getCurrentPos - pos, arg2 := 0, arg3 := 0 })
    have hrest : fs₁.unresolvedbreaks = bs ++ rest := by rw [← hfs₁]
    obtain ⟨hres, hbreaks, hcontinues⟩ := ih hpatch.invariant hpatch.extends_
      (hsteady.unresolvedbreaks.trans hrest) fun p hp => hpatch.leaves _ _ _
        (hcode ▸ hleaves p (List.mem_cons_of_mem _ hp))
    refine ⟨⟨hres.invariant, hres.extends_, ?_, fun b p T hl => ?_⟩, hbreaks, ?_⟩
    · rw [hres.length, hpatch.length, hcode]
    · exact hres.leaves b p T (hpatch.leaves b p T (hcode.symm ▸ hl))
    · rw [hcontinues]
      refine hsteady.unresolvedcontinues.trans ?_
      rw [← hfs₁]

theorem Invariant.resolveContinues (h : Invariant fs tags T P) (he : Extends fs₀ fs tags₀ tags)
    {targetpos : ℤ} (htarget : tags.At (targetpos + 1) T')
    (hcs : fs.unresolvedcontinues = bs ++ rest)
    (hleaves : ∀ pos ∈ bs, LeavesAt fs₀.instructions.length fs.instructions tags pos T') :
    Resolved fs₀ fs (SQFuncState.resolveContinues targetpos bs.length fs) tags₀ tags T P ∧
      (SQFuncState.resolveContinues targetpos bs.length fs).unresolvedcontinues = rest ∧
      (SQFuncState.resolveContinues targetpos bs.length fs).unresolvedbreaks =
        fs.unresolvedbreaks := by
  induction bs generalizing fs with
  | nil => exact ⟨⟨h, he, rfl, fun _ _ _ hl => hl⟩, hcs, rfl⟩
  | cons pos bs ih =>
    rw [List.cons_append] at hcs
    simp only [List.length_cons, SQFuncState.resolveContinues, hcs]
    have htake := h.take_continue hcs
    generalize hfs₁ : { fs with unresolvedcontinues := bs ++ rest } = fs₁ at htake
    have hcode : fs₁.instructions = fs.instructions := by rw [← hfs₁]
    have he₁ : Extends fs₀ fs₁ tags₀ tags := ⟨he.tags, hcode ▸ he.le, hcode ▸ he.code⟩
    have hpos := hleaves pos List.mem_cons_self
    rw [← hcode] at hpos
    have htarget' : tags.At (pos + 1 + (targetpos - pos)) T' := by
      rwa [show pos + 1 + (targetpos - pos) = targetpos + 1 by omega]
    have hpatch := Resolved.patch htake he₁ hpos htarget'
    have hsteady := steady_modifyInstruction fs₁ pos
      (fun i => { i with arg0 := .ofInt 8 0, arg1 := targetpos - pos, arg2 := 0, arg3 := 0 })
    have hrest : fs₁.unresolvedcontinues = bs ++ rest := by rw [← hfs₁]
    obtain ⟨hres, hcontinues, hbreaks⟩ := ih hpatch.invariant hpatch.extends_
      (hsteady.unresolvedcontinues.trans hrest) fun p hp => hpatch.leaves _ _ _
        (hcode ▸ hleaves p (List.mem_cons_of_mem _ hp))
    refine ⟨⟨hres.invariant, hres.extends_, ?_, fun b p T hl => ?_⟩, hcontinues, ?_⟩
    · rw [hres.length, hpatch.length, hcode]
    · exact hres.leaves b p T (hpatch.leaves b p T (hcode.symm ▸ hl))
    · rw [hbreaks]
      refine hsteady.unresolvedbreaks.trans ?_
      rw [← hfs₁]

/-- The end of a loop. -/
theorem Compiled.endBreakable (hc : Compiled fs₀ fs tags₀ tags T T) (h : Invariant fs tags T P)
    {target : ℤ} (htarget : tags.At (target + 1) T) :
    Invariant (fs.endBreakable fs₀.unresolvedbreaks.length fs₀.unresolvedcontinues.length target)
      tags T P ∧
    ∀ Tb Tc, Compiled fs₀ (fs.endBreakable fs₀.unresolvedbreaks.length
      fs₀.unresolvedcontinues.length target) tags₀ tags Tb Tc := by
  obtain ⟨bs, hbs, hb⟩ := hc.breaks
  obtain ⟨cs, hcs, hcleaves⟩ := hc.continues
  have hbl : fs.unresolvedbreaks.length - fs₀.unresolvedbreaks.length = bs.length := by simp [hbs]
  have hcl : fs.unresolvedcontinues.length - fs₀.unresolvedcontinues.length = cs.length := by
    simp [hcs]
  unfold SQFuncState.endBreakable
  dsimp only
  rw [hbl, hcl]
  obtain ⟨hr, hrest, hbreaks⟩ := h.resolveContinues hc.toExtends htarget hcs hcleaves
  generalize SQFuncState.resolveContinues target cs.length fs = fs₁ at hr hrest hbreaks ⊢
  obtain ⟨hr', hrest', hcontinues⟩ := hr.invariant.resolveBreaks hr.extends_
    (hbreaks.trans hbs) fun p hp => hr.leaves _ _ _ (hb p hp)
  generalize SQFuncState.resolveBreaks bs.length fs₁ = fs₂ at hr' hrest' hcontinues ⊢
  exact ⟨hr'.invariant.congr (.refl _) (.refl _) (.refl _) (.refl _), fun Tb Tc => ⟨⟨hr'.extends_.tags, hr'.extends_.le,
    hr'.extends_.code⟩, ⟨[], hrest', by simp⟩, ⟨[], hcontinues.trans hrest, by simp⟩⟩⟩

end Resolve

end Squirt.SQCompiler
