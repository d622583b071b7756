import Squirt.TrapStatements

/-!
# Typing the code of each statement form
-/

namespace Squirt.SQCompiler

variable {fs fs' fs₀ fs₁ fs₂ : SQFuncState} {tags tags' tags₀ : Tags} {T T' Tb Tc : List ℕ}
  {P : List ℤ} {n : ℕ} {lex : Lexical} {body other handler : Compile}

theorem Invariant.setArg1 {pos val : ℤ} (h : Invariant fs tags T' P)
    (hj : JumpAt fs.instructions tags n T) (hpos : pos = n)
    (htarget : tags.At (pos + 1 + val) T) : Invariant (fs.setArg1 pos val) tags T' P :=
  h.patchJump hj hpos (fun _ => rfl) (fun _ => rfl) htarget fun _ hp => .inr hp

theorem Compiled.setArg1 {pos : ℤ} (h : Compiled fs fs' tags tags' Tb Tc) (val : ℤ)
    (hpos : pos = n) (hfresh : Fresh fs n) : Compiled fs (fs'.setArg1 pos val) tags tags' Tb Tc :=
  h.patch hpos hfresh fun _ => rfl

theorem JumpAt.patch {m : ℕ} {pos : ℤ} {f : SQInstruction → SQInstruction}
    (h : JumpAt fs.instructions tags m T) (hpos : pos = n) (hf : ∀ i, (f i).op = i.op) :
    JumpAt (fs.modifyInstruction pos f).instructions tags m T := by
  obtain ⟨i, hi, hop, hT⟩ := h
  refine ⟨_, get_modifyInstruction hpos hi, ?_, hT⟩
  split_ifs
  · rwa [hf i]
  · exact hop

theorem JumpAt.setArg1 {m : ℕ} {pos : ℤ} (h : JumpAt fs.instructions tags m T) (val : ℤ)
    (hpos : pos = n) : JumpAt (fs.setArg1 pos val).instructions tags m T :=
  h.patch hpos fun _ => rfl

/-- The target of a jump that is patched to the current position. -/
theorem Invariant.at_current (h : Invariant fs tags T P) (pos : ℤ) :
    tags.At (pos + 1 + (fs.getCurrentPos - pos)) T := by
  have hnext := h.at_next
  rwa [show pos + 1 + (fs.getCurrentPos - pos) = fs.getCurrentPos + 1 by omega]

theorem Compiles.inScope (hbody : Compiles lex T Tb Tc body) :
    Compiles lex T Tb Tc (inScope body) := by
  refine ⟨hbody.settles.inScope, fun fs fs' tags P hok hinv hctx hkept => ?_⟩
  obtain ⟨fs₁, h₁, rfl⟩ := inScope_ok hok
  obtain ⟨tags₁, hbegin⟩ := (Emitting.beginScope fs).keeps hinv
  obtain ⟨tags₂, hinv₂, hc₂⟩ := hbody.typed _ _ tags₁ P h₁ hbegin.1
    (hctx.settled (Emitting.beginScope fs).settled)
    ((Emitting.endScope fs₁ _).settled.kept hkept)
  obtain ⟨tags₃, hend⟩ := (Emitting.endScope fs₁ fs.scope).keeps hinv₂
  exact ⟨tags₃, hend.1, (hbegin.2 _ _).trans (hc₂.trans (hend.2 _ _))⟩

theorem Compiles.ifThen (hbody : Compiles lex T Tb Tc body) (cond : Labelled) :
    Compiles lex T Tb Tc (ifThenStatement body cond) := by
  refine ⟨hbody.settles.ifThen cond, fun fs fs' tags P hok hinv hctx hkept => ?_⟩
  obtain ⟨fs₁, h₁, rfl⟩ := ifThenStatement_ok hok
  obtain ⟨tags₁, m, hjz, hm, hfresh, hjump⟩ := hinv.emitJz cond
  obtain ⟨tags₂, hinv₂, hc₂⟩ := hbody.inScope.typed _ _ tags₁ P h₁ hjz.1
    (hctx.settled (settled_emitJz cond fs 0)) ((settled_patch _ _ _).kept hkept)
  refine ⟨tags₂, hinv₂.setArg1 (hjump.extends hc₂.toExtends) hm (hinv₂.at_current _), ?_⟩
  exact ((hjz.2 _ _).trans hc₂).setArg1 _ hm hfresh

theorem Compiles.ifElse (hbody : Compiles lex T Tb Tc body) (hother : Compiles lex T Tb Tc other)
    (cond : Labelled) : Compiles lex T Tb Tc (ifElseStatement body other cond) := by
  refine ⟨hbody.settles.ifElse hother.settles cond, fun fs fs' tags P hok hinv hctx hkept => ?_⟩
  obtain ⟨fs₁, fs₂, h₁, h₂, rfl⟩ := ifElseStatement_ok hok
  have hsettled := settled_emitJz cond fs 0
  have hsettled₁ := hbody.settles.inScope _ _ h₁
  have hjmp : Settled fs₁ (fs₁.beginScope.add .JMP 0 0 0 0) :=
    (Emitting.beginScope fs₁).settled.trans (settled_add _ _ _ _ _ _)
  have hkept₂ := ((Emitting.endScope fs₂ fs₁.scope).settled.trans
    ((settled_patch _ _ _).trans (settled_patch _ _ _))).kept hkept
  obtain ⟨tags₁, m, hjz, hm, hfresh, hjump⟩ := hinv.emitJz cond
  obtain ⟨tags₂, hinv₂, hc₂⟩ := hbody.inScope.typed _ _ tags₁ P h₁ hjz.1
    (hctx.settled hsettled) ((hjmp.trans (hother.settles _ _ h₂)).kept hkept₂)
  obtain ⟨tags₃, hbegin⟩ := (Emitting.beginScope fs₁).keeps hinv₂
  obtain ⟨tags₄, hadd, hpos, hjump'⟩ := hbegin.1.add_jmp
  obtain ⟨tags₅, hinv₅, hc₅⟩ := hother.typed _ _ tags₄ P h₂ hadd.1
    (hctx.settled (hsettled.trans (hsettled₁.trans hjmp))) hkept₂
  obtain ⟨tags₆, hend⟩ := (Emitting.endScope fs₂ fs₁.scope).keeps hinv₅
  have hafter := hc₅.trans (hend.2 Tb Tc)
  have hbefore := (hbegin.2 Tb Tc).trans (hadd.2 Tb Tc)
  have hall := (hjz.2 Tb Tc).trans (hc₂.trans (hbefore.trans hafter))
  -- the end of the first branch is where the second one begins
  have htarget : tags₆.At ((m : ℤ) + 1 + (fs₁.getCurrentPos - m + 1)) T := by
    refine ⟨fs₁.instructions.length + 1, ?_, ?_⟩
    · simp only [SQFuncState.getCurrentPos]
      omega
    · have hlast := hadd.1.last
      unfold SQFuncState.getCurrentPos at hpos
      rw [show (fs₁.beginScope.add .JMP 0 0 0 0).instructions.length =
        fs₁.instructions.length + 1 by change _ = fs₁.beginScope.instructions.length + 1; omega]
        at hlast
      exact Tags.get_of_prefix hafter.tags hlast
  refine ⟨tags₆, ?_, ?_⟩
  · have hfirst := hend.1.setArg1 (hjump'.extends hafter.toExtends) hpos (hend.1.at_current _)
    refine hfirst.setArg1 ?_ hm (hm ▸ htarget)
    exact JumpAt.setArg1 (hjump.extends (hc₂.trans (hbefore.trans hafter)).toExtends) _ hpos
  · have hfresh' : Fresh fs fs₁.beginScope.instructions.length :=
      ((hjz.2 Tb Tc).trans hc₂).fresh (fresh_of_le le_rfl)
    exact (hall.setArg1 _ hpos hfresh').setArg1 _ hm hfresh

/-- The counts inside a loop. -/
theorem Context.breakable (h : Context lex T Tb Tc fs) :
    Context ⟨lex.tries, lex.tries, lex.tries⟩ T T T fs.beginBreakable := by
  refine ⟨h.tries, h.traps, fun k ks hk => ?_, fun k ks hk => ?_⟩
  all_goals
    cases hk
    exact ⟨List.suffix_rfl, by simp, h.tries⟩

theorem kept_endBreakable {nb nc : ℕ} {target : ℤ}
    (hkept : ∀ note ∈ (fs.endBreakable nb nc target).notes, note.Kept) :
    ∀ note ∈ fs.notes, note.Kept :=
  ((settled_resolveContinues target (fs.unresolvedcontinues.length - nc) fs).trans
    (settled_resolveBreaks (fs.unresolvedbreaks.length - nb) _)).kept hkept

theorem Compiles.while (hbody : Compiles ⟨lex.tries, lex.tries, lex.tries⟩ T T T body)
    (cond : Labelled) : Compiles lex T Tb Tc (whileStatement body cond) := by
  refine ⟨hbody.settles.while cond, fun fs fs' tags P hok hinv hctx hkept => ?_⟩
  obtain ⟨fs₁, h₁, rfl⟩ := whileStatement_ok hok
  have hcond := Emitting.labelled cond fs
  obtain ⟨tags₁, hemit⟩ := hcond.keeps hinv
  -- the targets do not matter for the code
  have hbegin : Keeps fs (cond.emit fs).beginBreakable tags tags₁ T P :=
    ⟨hemit.1.congr rfl rfl rfl rfl, fun Tb Tc => (hemit.2 Tb Tc).congr rfl rfl rfl⟩
  obtain ⟨tags₂, hpop⟩ := (Emitting.popTarget (cond.emit fs).beginBreakable).keeps hbegin.1
  obtain ⟨tags₃, m, hjz, hm, hfresh, hjump⟩ := hpop.1.add_jz
    (.ofArgs (some cond.label) .JZ (cond.emit fs).topTarget 0 0 0) rfl rfl
  have hc₃ : Compiled fs (beginWhile fs cond) tags tags₃ T T :=
    (hbegin.2 T T).trans ((hpop.2 T T).trans (hjz.2 T T))
  have hjzSettled : Settled (cond.emit fs).beginBreakable (beginWhile fs cond) :=
    (Emitting.popTarget _).settled.trans (steady_addInstruction _ _).settled
  have hkept₁ := ((settled_add fs₁ .JMP 0 (fs.getCurrentPos - fs₁.getCurrentPos - 1) 0 0).trans
    (settled_patch _ _ _)).kept (kept_endBreakable hkept)
  obtain ⟨tags₄, hinv₄, hc₄⟩ := hbody.inScope.typed _ _ tags₃ P h₁ hjz.1
    ((hctx.settled hcond.settled).breakable.settled hjzSettled) hkept₁
  obtain ⟨tags₅, hback⟩ := hinv₄.jumpBack (hinv.at_next.mono (hc₃.trans hc₄).tags)
  have hall := hc₃.trans (hc₄.trans (hback.2 T T))
  have hpatch := hback.1.setArg1 (hjump.extends (hc₄.trans (hback.2 T T)).toExtends) hm
    (hback.1.at_current _)
  have hend := (hall.setArg1 _ hm ((hbegin.2 T T).fresh
    ((hpop.2 T T).fresh hfresh))).endBreakable hpatch (hinv.at_next.mono hall.tags)
  rw [← hcond.steady.unresolvedbreaks, ← hcond.steady.unresolvedcontinues] at hend
  exact ⟨tags₅, hend.1, hend.2 Tb Tc⟩

private theorem modify_concat_last (l : List SQInstruction) (x : SQInstruction)
    (f : SQInstruction → SQInstruction) : (l ++ [x]).modify l.length f = l ++ [f x] := by
  rw [modify_append le_rfl, Nat.sub_self]
  rfl

/-- The offset of a conditional jump is the same in what the optimizer makes of it. -/
theorem addInstruction_setArg1 (fs : SQFuncState) {i : SQInstruction} (hi : i.op = .JZ) (val : ℤ) :
    fs.addInstruction { i with arg1 := val } =
      (fs.addInstruction i).setArg1 (fs.addInstruction i).getCurrentPos val := by
  have hlast : ∀ (l : List SQInstruction) (x : SQInstruction) (fs' : SQFuncState),
      fs'.instructions = l ++ [x] → fs'.setArg1 fs'.getCurrentPos val =
        { fs' with instructions := l ++ [{ x with arg1 := val }] } := by
    intro l x fs' hcode
    have hpos : fs'.getCurrentPos = l.length := by
      simp [SQFuncState.getCurrentPos, hcode]
    rw [SQFuncState.setArg1, modifyInstruction_of_nonneg hpos, hcode, modify_concat_last]
  obtain ⟨op, arg0, arg1, arg2, arg3, source⟩ := i
  obtain rfl : op = .JZ := hi
  unfold SQFuncState.addInstruction
  cases hget : fs.instructions.getLast? with
  | none =>
    dsimp only
    rw [hlast _ _ _ rfl]
  | some pi =>
    have hpair : ∀ j : SQInstruction, fs.instructions.dropLast ++ [pi, j] =
        (fs.instructions.dropLast ++ [pi]) ++ [j] := by simp
    dsimp only
    split_ifs with hopt
    · unfold SQFuncState.fuse
      dsimp only
      split_ifs
      · rw [hlast _ _ _ rfl]
      · rw [hlast _ _ _ (hpair _)]
        dsimp only
        rw [hpair]
      · rw [hlast _ _ _ (hpair _)]
        dsimp only
        rw [hpair]
    · rw [hlast _ _ _ rfl]

/-- A pending jump that happens to go to where there are its traps. -/
theorem Invariant.settle (h : Invariant fs tags T ((n : ℤ) :: P))
    (hj : JumpAt fs.instructions tags n T')
    (htarget : ∀ i, fs.instructions[n]? = some i → tags.At (n + 1 + i.arg1) T') :
    Invariant fs tags T P := by
  obtain ⟨i, hi, hop, hT'⟩ := hj
  refine ⟨⟨h.typed.length, h.typed.first, h.typed.falls, fun m j T₁ hj hT₁ hpend => ?_,
    h.typed.stack⟩, h.last, h.noted, h.jumps⟩
  by_cases hm : m = n
  · subst hm
    rw [hi] at hj
    rw [hT'] at hT₁
    cases hj
    cases hT₁
    have hat := htarget i hi
    unfold Tags.Jumps
    split <;> simp_all
  · refine h.typed.jumps m j T₁ hj hT₁ fun hmem => hpend ?_
    rw [List.cons_append] at hmem
    rcases List.mem_cons.mp hmem with heq | hmem
    · exact absurd (Int.ofNat.inj heq) hm
    · exact hmem

/-- The condition of a `do`: its jump goes over the next instruction. -/
theorem Invariant.emitJz_over (h : Invariant fs tags T P) (cond : Labelled) :
    ∃ (tags' : Tags) (m : ℕ), Invariant (cond.emitJz fs 1) tags' T ((m : ℤ) :: P) ∧
      (∀ Tb Tc, Compiled fs (cond.emitJz fs 1) tags tags' Tb Tc) ∧
      (cond.emitJz fs 1).getCurrentPos = m ∧
      JumpAt (cond.emitJz fs 1).instructions tags' m T ∧
      ∀ i, (cond.emitJz fs 1).instructions[m]? = some i → i.arg1 = 1 := by
  obtain ⟨tags', m, hkeeps, hm, hfresh, hjump⟩ := h.emitJz cond
  have heq : cond.emitJz fs 1 = (cond.emitJz fs 0).setArg1 (cond.emitJz fs 0).getCurrentPos 1 :=
    addInstruction_setArg1 (cond.emit fs).popTarget
      (i := .ofArgs (some cond.label) .JZ (cond.emit fs).topTarget 0 0 0) (.refl _) 1
  have hlen : (cond.emitJz fs 1).getCurrentPos = (cond.emitJz fs 0).getCurrentPos := by
    have hcode : (cond.emitJz fs 1).instructions.length =
        (cond.emitJz fs 0).instructions.length := by
      rw [heq, SQFuncState.setArg1, instructions_modifyInstruction hm, List.length_modify]
    unfold SQFuncState.getCurrentPos
    rw [hcode]
  refine ⟨tags', m, ?_, fun Tb Tc => ?_, hlen.trans hm, ?_, fun i hi => ?_⟩
  · rw [heq]
    obtain ⟨i, hi, hop, hT⟩ := hjump
    refine hkeeps.1.patch _ hm hi (fun _ => rfl) ?_ hT (.inl List.mem_cons_self)
      fun _ hp => .inr (List.mem_cons_of_mem _ hp)
    intro hpop
    simp [hpop] at hop
  · rw [heq]
    exact (hkeeps.2 Tb Tc).setArg1 1 hm hfresh
  · rw [heq]
    exact hjump.setArg1 1 hm
  · rw [heq, SQFuncState.setArg1, instructions_modifyInstruction hm] at hi
    obtain ⟨j, -, rfl⟩ := modify_self hi
    rw [if_pos rfl]

theorem Invariant.beginBreakable (h : Invariant fs tags T P) :
    Keeps fs fs.beginBreakable tags tags T P :=
  ⟨h.congr rfl rfl rfl rfl, fun _ _ => Compiled.refl.congr rfl rfl rfl⟩

theorem instructions_add_jmp (fs : SQFuncState) (a1 : ℤ) :
    (fs.add .JMP 0 a1 0 0).instructions = fs.instructions ++ [.ofArgs none .JMP 0 a1 0 0] :=
  instructions_add (by simp [SQOpcode.IsPushed, SQInstruction.ofArgs])

theorem Compiles.doWhile (hbody : Compiles ⟨lex.tries, lex.tries, lex.tries⟩ T T T body)
    (cond : Labelled) : Compiles lex T Tb Tc (doWhileStatement body cond) := by
  refine ⟨hbody.settles.doWhile cond, fun fs fs' tags P hok hinv hctx hkept => ?_⟩
  obtain ⟨fs₁, h₁, rfl⟩ := doWhileStatement_ok hok
  have hbegin := hinv.beginBreakable
  obtain ⟨tags₁, hinv₁, hc₁⟩ := hbody.inScope.typed _ _ tags P h₁ hbegin.1 hctx.breakable
    (((settled_emitJz cond fs₁ 1).trans (settled_add _ _ _ _ _ _)).kept (kept_endBreakable hkept))
  obtain ⟨tags₂, m, hinv₂, hc₂, hm, hjump, harg⟩ := hinv₁.emitJz_over cond
  have hbefore := (hbegin.2 T T).trans (hc₁.trans (hc₂ T T))
  obtain ⟨tags₃, hback⟩ := hinv₂.jumpBack (hinv.at_next.mono hbefore.tags)
  have hsettle := hback.1.settle (hjump.extends (hback.2 T T).toExtends) fun i hi => ?_
  · have hend := (hbefore.trans (hback.2 T T)).endBreakable hsettle
      (hinv₁.at_next.mono ((hc₂ T T).trans (hback.2 T T)).tags)
    exact ⟨tags₃, hend.1, hend.2 Tb Tc⟩
  · -- the jump goes over the jump back
    obtain ⟨j, hj, hop, -⟩ := hjump
    have hplain : j.op.isPlain = false := by
      revert hop
      cases j.op <;> simp [SQOpcode.isPlain]
    rw [(hback.2 T T).code m j hj hplain] at hi
    cases hi
    refine ⟨_, ?_, hback.1.last⟩
    rw [instructions_add_jmp, List.length_append, List.length_singleton, harg _ hj]
    unfold SQFuncState.getCurrentPos at hm
    omega

section For

variable {exp : List SQInstruction}

/-- The increment where it is first emitted: the code before is left as it is, and the jumps stay
in the increment. -/
structure Popped (fs fs' : SQFuncState) (exp : List SQInstruction) : Prop where
  instructions : fs'.instructions = fs.instructions
  steady : Steady fs fs'
  inside : ∀ k i, exp[k]? = some i → Inside 0 exp.length k i

theorem popped (fs : SQFuncState) (hopt : fs.optimization = false) (increment : Labelled) :
    Popped fs (popIncrement fs increment) (incrementCode fs increment) := by
  have hemit := (start_of_snoozed hopt).emit increment.exp increment.label
  have hsnooze := hemit.trans hemit.loc.emits_snoozeOpt
  obtain ⟨l, hcode, -⟩ := hsnooze.loc.code
  have hexp : incrementCode fs increment = l := by
    unfold incrementCode
    exact (congrArg (List.drop _) hcode).trans List.drop_left
  rw [hexp]
  have hsteady := hsnooze.steady
  refine ⟨?_, ⟨hsteady.traps, hsteady.breaktargets, hsteady.continuetargets,
    hsteady.unresolvedbreaks, hsteady.unresolvedcontinues, hsteady.notes⟩, fun k i hi => ?_⟩
  · unfold popIncrement SQFuncState.popInstructions
    rw [hexp]
    change List.take (List.length (increment.emit fs).snoozeOpt.instructions - l.length)
      (increment.emit fs).snoozeOpt.instructions = _
    have hcode' : (increment.emit fs).snoozeOpt.instructions = fs.instructions ++ l := hcode
    rw [hcode', List.length_append, Nat.add_sub_cancel, List.take_left]
  · have hget : (increment.emit fs).snoozeOpt.instructions[fs.instructions.length + k]? =
        some i := by
      change ((increment.exp.emit increment.label fs).snoozeOpt).instructions[_]? = _
      rw [hcode, List.getElem?_append_right (Nat.le_add_right _ _), Nat.add_sub_cancel_left, hi]
    have hlen : (increment.exp.emit increment.label fs).snoozeOpt.instructions.length =
        fs.instructions.length + l.length := by rw [hcode, List.length_append]
    rcases hsnooze.loc.inside _ i (Nat.le_add_right _ k) hget with hplain | ⟨hop, t, ht, hb, he⟩
    · exact .inl hplain
    · exact .inr ⟨hop, t - fs.instructions.length, by omega, Nat.zero_le _, by omega⟩

theorem length_readd (fs : SQFuncState) (exp : List SQInstruction) :
    fs.instructions.length ≤ (readd fs exp).instructions.length := by
  induction exp generalizing fs with
  | nil => exact le_rfl
  | cons i exp ih => exact (length_le_addInstruction fs i).trans (ih _)

/-- On the way the code is as long as at the beginning, and as in the end at most. -/
theorem le_of_mem_readdLengths {p : ℕ} (hp : p ∈ readdLengths fs exp) :
    fs.instructions.length ≤ p ∧ p ≤ (readd fs exp).instructions.length := by
  induction exp generalizing fs with
  | nil =>
    obtain rfl := List.mem_singleton.mp hp
    exact ⟨le_rfl, le_rfl⟩
  | cons i exp ih =>
    rcases List.mem_cons.mp hp with rfl | hp
    · exact ⟨le_rfl, length_readd fs (i :: exp)⟩
    · exact ⟨(length_le_addInstruction fs i).trans (ih hp).1, (ih hp).2⟩

/-- Adding instructions that are plain, or jump to `e` at most from where they come to be. -/
theorem LocalTo.readd {base : List SQInstruction} {e : ℕ} (h : LocalTo base e fs)
    (hexp : ∀ (k : ℕ) i p, exp[k]? = some i → (readdLengths fs exp)[k + 1]? = some p →
      Inside base.length e (p - 1) i) : LocalTo base e (readd fs exp) := by
  induction exp generalizing fs with
  | nil => exact h
  | cons i exp ih =>
    have hfirst : (readdLengths (fs.addInstruction i) exp)[0]? =
        some (fs.addInstruction i).instructions.length := by cases exp <;> rfl
    exact ih (h.add (hexp 0 i _ rfl hfirst)) fun k j p hj hp => hexp (k + 1) j p hj hp

private theorem pos_of_readdLengths {k p : ℕ} (hp : (readdLengths fs exp)[k + 1]? = some p) : 0 < p
    := by
  cases exp with
  | nil => cases hp
  | cons i exp =>
    have hp' : (readdLengths (fs.addInstruction i) exp)[k]? = some p := hp
    have hle := (le_of_mem_readdLengths (List.mem_of_getElem? hp')).1
    have hpos : 0 < (fs.addInstruction i).instructions.length := by
      have hadded := added fs i
      generalize (fs.addInstruction i).instructions = code' at hadded
      cases hadded <;> simp
    omega

/-- The increment is added again. -/
theorem Invariant.again {jzpos : ℤ} (h : Invariant fs tags T P)
    (hinside : ∀ k i, exp[k]? = some i → Inside 0 exp.length k i)
    (hkept : (Note.increment jzpos exp (readdLengths fs exp)).Kept) :
    ∃ tags', Keeps fs (againIncrement fs jzpos exp) tags tags' T P := by
  obtain ⟨base, hstart, hlocal⟩ := exists_start fs
  have hmem : ∀ {k p}, (readdLengths fs exp)[k]? = some p → base.length ≤ p ∧
      p ≤ (readd fs exp).instructions.length := fun hp =>
    have hle := le_of_mem_readdLengths (List.mem_of_getElem? hp)
    ⟨hstart.le.trans hle.1, hle.2⟩
  have hreadd : Local base (readd fs exp) := by
    refine (hlocal.mono (length_readd fs exp)).readd fun k i p hi hp => ?_
    rcases hinside k i hi with hplain | ⟨hop, t, ht, -, -⟩
    · exact .inl hplain
    · have hplain : i.op.isPlain = false := by
        revert hop
        cases i.op <;> simp [SQOpcode.isPlain]
      obtain ⟨p', hp', q, hq, hpq⟩ := hkept k (List.getElem?_eq_some_iff.mp hi).1 i hi hplain
      obtain rfl : p = p' := Option.some.inj (hp.symm.trans hp')
      have hpos := pos_of_readdLengths hp
      exact .inr ⟨hop, q, by omega, hmem hq⟩
  obtain ⟨tags', hinv, hc⟩ := h.emits hstart hreadd (length_readd fs exp) (steady_readd fs exp)
  refine ⟨tags', ⟨hinv.typed, hinv.last, fun note hnote => ?_, fun pos tries hnote => ?_⟩,
    fun Tb Tc => (hc Tb Tc).congr rfl rfl rfl⟩
  · rcases List.mem_cons.mp hnote with rfl | hnote
    · trivial
    · exact hinv.noted note (by rwa [(steady_readd fs exp).notes])
  · rcases List.mem_cons.mp hnote with hnote | hnote
    · cases hnote
    · exact hinv.jumps pos tries (by rwa [(steady_readd fs exp).notes])

theorem Invariant.forCondition (h : Invariant fs tags T P) {cond : Option Labelled} {jzpos : ℤ}
    (hok : forCondition fs cond = (fs', jzpos)) :
    ∃ tags', Keeps fs fs' tags tags' T P ∧ Steady fs fs' ∧
      (jzpos > 0 → ∃ m : ℕ, jzpos = m ∧ Fresh fs m ∧ JumpAt fs'.instructions tags' m T) := by
  cases cond with
  | none =>
    cases hok
    exact ⟨tags, ⟨h, fun _ _ => .refl⟩, .rfl, fun hpos => by omega⟩
  | some cond =>
    obtain ⟨tags', m, hjz, hm, hfresh, hjump⟩ := h.emitJz cond
    cases hok
    exact ⟨tags', hjz, ((Emitting.labelled cond fs).trans (.popTarget _)).steady.trans
      (steady_addInstruction _ _), fun _ => ⟨m, hm, hfresh, hjump⟩⟩

theorem Invariant.jumpOut {jzpos : ℤ} (h : Invariant fs tags T P)
    (hjump : jzpos > 0 → ∃ m : ℕ, jzpos = m ∧ JumpAt fs.instructions tags m T) :
    Invariant (jumpOut fs jzpos) tags T P := by
  unfold SQCompiler.jumpOut
  split_ifs with hpos
  · obtain ⟨m, hm, hj⟩ := hjump hpos
    exact h.setArg1 hj hm (h.at_current _)
  · exact h

theorem Compiled.jumpOut {jzpos : ℤ} (h : Compiled fs fs' tags tags' Tb Tc)
    (hjump : jzpos > 0 → ∃ m : ℕ, jzpos = m ∧ Fresh fs m) :
    Compiled fs (jumpOut fs' jzpos) tags tags' Tb Tc := by
  unfold SQCompiler.jumpOut
  split_ifs with hpos
  · obtain ⟨m, hm, hf⟩ := hjump hpos
    exact h.setArg1 _ hm hf
  · exact h

theorem Popped.keeps (h : Popped fs fs' exp) (hinv : Invariant fs tags T P) :
    Keeps fs fs' tags tags T P :=
  ⟨hinv.congr h.instructions h.steady.unresolvedbreaks h.steady.unresolvedcontinues
    h.steady.notes, fun _ _ => Compiled.refl.congr h.instructions h.steady.unresolvedbreaks
    h.steady.unresolvedcontinues⟩

theorem Compiles.for (hbody : Compiles ⟨lex.tries, lex.tries, lex.tries⟩ T T T body)
    (start increment : Labelled) (cond : Option Labelled) :
    Compiles lex T Tb Tc (forStatement body start cond increment) := by
  refine ⟨hbody.settles.for start increment cond, fun fs fs' tags P hok hinv hctx hkept => ?_⟩
  obtain ⟨fs₁, fs₂, jzpos, fs₃, fs₄, rfl, hcond, rfl, h₄, rfl⟩ := forStatement_ok hok
  have hstart : Emitting fs (startFor fs start) :=
    (Emitting.beginScope fs).trans ((Emitting.labelled start _).trans (.snoozeOpt _))
  obtain ⟨tags₁, hkeeps₁⟩ := hstart.keeps hinv
  obtain ⟨tags₂, hkeeps₂, hsteady₂, hjz⟩ := hkeeps₁.1.forCondition hcond
  have hsnooze : Keeps fs₂ fs₂.snoozeOpt tags₂ tags₂ T P :=
    ⟨hkeeps₂.1.congr rfl rfl rfl rfl, fun _ _ => Compiled.refl.congr rfl rfl rfl⟩
  have hpopped := popped fs₂.snoozeOpt rfl increment
  have hpop := hpopped.keeps hsnooze.1
  have hbegin := hpop.1.beginBreakable
  have hsteady : Steady fs (popIncrement fs₂.snoozeOpt increment) :=
    hstart.steady.trans (hsteady₂.trans ((Emitting.snoozeOpt fs₂).steady.trans hpopped.steady))
  have hafter := hsnooze.trans (hpop.trans hbegin)
  generalize popIncrement fs₂.snoozeOpt increment = fs₃ at *
  generalize incrementCode fs₂.snoozeOpt increment = exp at *
  have hkept₅ := ((settled_add (againIncrement fs₄ jzpos exp) .JMP 0
    ((startFor fs start).getCurrentPos - (againIncrement fs₄ jzpos exp).getCurrentPos - 1) 0 0).trans
    ((settled_jumpOut _ jzpos).trans (Emitting.endScope _ fs.scope).settled)).kept
      (kept_endBreakable hkept)
  obtain ⟨tags₄, hinv₄, hc₄⟩ := hbody.typed _ _ tags₂ P h₄ hbegin.1
    (hctx.settled hsteady.settled).breakable ((settled_againIncrement fs₄ jzpos exp).kept hkept₅)
  obtain ⟨tags₅, hagain⟩ := hinv₄.again hpopped.inside (hkept₅ _ List.mem_cons_self)
  have hbody₅ := (hafter.2 T T).trans (hc₄.trans (hagain.2 T T))
  obtain ⟨tags₆, hback⟩ := hagain.1.jumpBack
    (hkeeps₁.1.at_next.mono ((hkeeps₂.2 T T).trans hbody₅).tags)
  have hloop := hbody₅.trans (hback.2 T T)
  have hout := hback.1.jumpOut fun hpos =>
    have ⟨m, hm, _, hjump⟩ := hjz hpos
    ⟨m, hm, hjump.extends hloop.toExtends⟩
  have hcout := ((hkeeps₁.2 T T).trans ((hkeeps₂.2 T T).trans hloop)).jumpOut fun hpos =>
    have ⟨m, hm, hfresh, _⟩ := hjz hpos
    ⟨m, hm, (hkeeps₁.2 T T).fresh hfresh⟩
  obtain ⟨tags₇, hscope⟩ := (Emitting.endScope _ fs.scope).keeps hout
  have hend := (hcout.trans (hscope.2 T T)).endBreakable hscope.1
    (hinv₄.at_next.mono (((hagain.2 T T).trans (hback.2 T T)).tags.trans (hscope.2 T T).tags))
  rw [← hsteady.unresolvedbreaks, ← hsteady.unresolvedcontinues] at hend
  exact ⟨tags₇, hend.1, hend.2 Tb Tc⟩

end For

section Foreach

/-- What the two instructions of an iteration become: they wait for their targets. -/
structure Iterates (fs fs' : SQFuncState) (tags tags' : Tags) (T : List ℕ) (P : List ℤ) : Prop where
  invariant : Invariant fs' tags' T
    ((fs.instructions.length + 1 : ℕ) :: (fs.instructions.length : ℤ) :: P)
  compiled : ∀ Tb Tc, Compiled fs fs' tags tags' Tb Tc
  element : tags'[fs.instructions.length + 2]? = some T
  first : ∃ i, fs'.instructions[fs.instructions.length]? = some i ∧ i.op = .FOREACH
  second : ∃ i, fs'.instructions[fs.instructions.length + 1]? = some i ∧ i.op = .POSTFOREACH

/-- The traps after the next instruction. -/
theorem Invariant.get_next (h : Invariant fs tags T P) (T' : List ℕ) :
    (tags ++ [T'])[fs.instructions.length + 1]? = some T' := by
  rw [← h.typed.length, List.getElem?_concat_length]

theorem Invariant.iterate (h : Invariant fs tags T P) (source : Option ℕ)
    (target indexpos : ℕ) :
    ∃ tags', Iterates fs (iterate fs source target indexpos) tags tags' T P := by
  have hcode₁ : (fs.addInstruction (.ofArgs source .FOREACH target 0 indexpos 0)).instructions =
      fs.instructions ++ [.ofArgs source .FOREACH target 0 indexpos 0] :=
    instructions_add (by simp [SQOpcode.IsPushed, SQInstruction.ofArgs])
  obtain ⟨hinv₁, hc₁⟩ := h.push _ ((fs.instructions.length : ℤ) :: P) hcode₁
    (steady_addInstruction _ _) (h.get_next T) (.inl List.mem_cons_self)
    (fun _ hp => List.mem_cons_of_mem _ hp) (.inl (List.mem_of_getElem? h.last))
  have hcode₂ : (SQCompiler.iterate fs source target indexpos).instructions =
      (fs.addInstruction (.ofArgs source .FOREACH target 0 indexpos 0)).instructions ++
        [.ofArgs source .POSTFOREACH target 0 indexpos 0] :=
    instructions_add (by simp [SQOpcode.IsPushed, SQInstruction.ofArgs])
  have hnext : (fs.addInstruction (.ofArgs source .FOREACH target 0 indexpos 0)).instructions.length
      = fs.instructions.length + 1 := by simp [hcode₁]
  obtain ⟨hinv₂, hc₂⟩ := hinv₁.push _
    ((fs.instructions.length + 1 : ℕ) :: (fs.instructions.length : ℤ) :: P) hcode₂
    (steady_addInstruction _ _) (hinv₁.get_next T) (.inl (by simp [hnext]))
    (fun _ hp => List.mem_cons_of_mem _ hp) (.inl (List.mem_of_getElem? hinv₁.last))
  refine ⟨_, hinv₂, fun Tb Tc => (hc₁ Tb Tc).trans (hc₂ Tb Tc), ?_,
    ⟨.ofArgs source .FOREACH target 0 indexpos 0, ?_, rfl⟩,
    ⟨.ofArgs source .POSTFOREACH target 0 indexpos 0, ?_, rfl⟩⟩
  · have hlast := hinv₂.last
    rwa [hcode₂, List.length_append, hnext] at hlast
  · simp [hcode₂, hcode₁]
  · simp [hcode₂, hcode₁]

theorem getCurrentPos_setArg1 (fs : SQFuncState) (pos val : ℤ) :
    (fs.setArg1 pos val).getCurrentPos = fs.getCurrentPos := by
  unfold SQFuncState.setArg1 SQFuncState.modifyInstruction SQFuncState.getCurrentPos
  split_ifs
  · simp
  · rfl

/-- Both instructions of an iteration are patched at the end. -/
theorem Iterates.patch (h : Iterates fs₀ fs₁ tags₀ tags₁ T P) (hc : Compiled fs₁ fs tags₁ tags T T)
    (hinv : Invariant fs tags T
      ((fs₀.instructions.length + 1 : ℕ) :: (fs₀.instructions.length : ℤ) :: P))
    {foreachpos : ℤ} (hpos : foreachpos = fs₀.instructions.length)
    (hlast : tags₀[fs₀.instructions.length]? = some T) :
    Invariant ((fs.setArg1 foreachpos (fs.getCurrentPos - foreachpos)).setArg1 (foreachpos + 1)
      (fs.getCurrentPos - foreachpos)) tags T P := by
  obtain ⟨i, hi, hop⟩ := h.first
  obtain ⟨j, hj, hop'⟩ := h.second
  have htags := (h.compiled T T).tags.trans hc.tags
  have hcode := hc.code _ i hi (by rw [hop]; rfl)
  have hcode' := hc.code _ j hj (by rw [hop']; rfl)
  have hcur := hinv.at_next
  have hfirst := hinv.patch ((fs₀.instructions.length + 1 : ℕ) :: P)
    (f := fun i => { i with arg1 := fs.getCurrentPos - foreachpos }) hpos hcode (fun _ => rfl)
    (by simp [hop]) (Tags.get_of_prefix htags hlast)
    (.inr ?_) (by simp only [List.mem_cons]; tauto)
  · have hget := get_modifyInstruction (f := fun i =>
      { i with arg1 := fs.getCurrentPos - foreachpos }) hpos hcode'
    rw [if_neg (Nat.ne_of_lt (Nat.lt_succ_self _))] at hget
    -- the traps at the second instruction are those at the first
    have hnext := hinv.typed.falls _ i T hcode (Tags.get_of_prefix htags hlast)
    simp only [Tags.Falls, hop] at hnext
    refine hfirst.patch _ (by rw [hpos]; rfl) hget (fun _ => rfl) (by simp [hop']) hnext
      (.inr ?_) (by simp only [List.mem_cons]; tauto)
    simp only [Tags.Jumps, hop']
    rwa [show ((fs₀.instructions.length + 1 : ℕ) : ℤ) + (fs.getCurrentPos - foreachpos) =
      fs.getCurrentPos + 1 by push_cast; omega]
  · simp only [Tags.Jumps, hop]
    refine ⟨Tags.get_of_prefix hc.tags h.element, ?_⟩
    rwa [show (fs₀.instructions.length : ℤ) + 1 + (fs.getCurrentPos - foreachpos) =
      fs.getCurrentPos + 1 by omega]

theorem Compiles.foreach (hbody : Compiles ⟨lex.tries, lex.tries, lex.tries⟩ T T T body)
    (container : Labelled) : Compiles lex T Tb Tc (foreachStatement body container) := by
  refine ⟨hbody.settles.foreach container, fun fs fs' tags P hok hinv hctx hkept => ?_⟩
  obtain ⟨target, indexpos, fs₁, fs₂, foreachpos, fs₃, rfl, rfl, hpos, h₃, rfl⟩ :=
    foreachStatement_ok hok
  have hstart := Emitting.startForeach fs container
  obtain ⟨tags₁, hkeeps₁⟩ := hstart.keeps hinv
  generalize startForeach fs container = fs₁ at *
  obtain ⟨tags₂, hiter⟩ :=
    hkeeps₁.1.iterate (some container.label) target indexpos
  have hsteady : Steady fs (iterate fs₁ (some container.label) target indexpos) :=
    hstart.steady.trans ((steady_addInstruction _ _).trans (steady_addInstruction _ _))
  have hposn : foreachpos = fs₁.instructions.length := by
    rw [hpos, SQFuncState.getCurrentPos, instructions_add (by
      simp [SQOpcode.IsPushed, SQInstruction.ofArgs])]
    simp
  generalize iterate fs₁ (some container.label) target indexpos = fs₂ at *
  have hbegin := hiter.invariant.beginBreakable
  have hkept₃ := ((settled_add fs₃ .JMP 0 (fs₁.getCurrentPos - fs₃.getCurrentPos - 1) 0 0).trans
    ((settled_patch _ _ _).trans (settled_patch _ _ _))).kept (kept_endBreakable
      (((Emitting.popTarget _).trans (.endScope _ fs.scope)).settled.kept hkept))
  obtain ⟨tags₃, hinv₃, hc₃⟩ := hbody.typed _ _ tags₂ _ h₃ hbegin.1
    (hctx.settled hsteady.settled).breakable hkept₃
  have hc₂ := hiter.compiled T T
  obtain ⟨tags₄, hback⟩ := hinv₃.jumpBack (hkeeps₁.1.at_next.mono
    (hc₂.trans ((hbegin.2 T T).trans hc₃)).tags)
  have hloop := (hbegin.2 T T).trans (hc₃.trans (hback.2 T T))
  have hpatch := hiter.patch hloop hback.1 hposn hkeeps₁.1.last
  have hfresh : ∀ {n}, fs₁.instructions.length ≤ n → Fresh fs n := fun hn =>
    (hkeeps₁.2 T T).fresh (fresh_of_le hn)
  have hall := (((hkeeps₁.2 T T).trans (hc₂.trans hloop)).setArg1
    ((fs₃.add .JMP 0 (fs₁.getCurrentPos - fs₃.getCurrentPos - 1) 0 0).getCurrentPos - foreachpos)
    hposn (hfresh le_rfl)).setArg1
    ((fs₃.add .JMP 0 (fs₁.getCurrentPos - fs₃.getCurrentPos - 1) 0 0).getCurrentPos - foreachpos)
    (by rw [hposn]; rfl : foreachpos + 1 = (fs₁.instructions.length + 1 : ℕ))
    (hfresh (Nat.le_succ _))
  have htop : tags₄.At (foreachpos - 1 + 1) T :=
    ⟨_, by rw [hposn]; omega, Tags.get_of_prefix (hc₂.trans hloop).tags hkeeps₁.1.last⟩
  have hend := hall.endBreakable hpatch htop
  rw [← hsteady.unresolvedbreaks, ← hsteady.unresolvedcontinues] at hend
  obtain ⟨tags₅, hpop⟩ := ((Emitting.popTarget _).trans (.endScope _ fs.scope)).keeps hend.1
  refine ⟨tags₅, ?_, ?_⟩
  · simpa only [endForeach, getCurrentPos_setArg1] using hpop.1
  · simpa only [endForeach, getCurrentPos_setArg1] using (hend.2 Tb Tc).trans (hpop.2 Tb Tc)

end Foreach

end Squirt.SQCompiler
