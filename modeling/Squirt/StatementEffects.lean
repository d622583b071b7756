import Squirt.FuncState
import Squirt.EmissionSteps

/-!
# What compiling a statement leaves as it is

The steps of each statement form around its parts, and what none of them changes.
-/

namespace Squirt.SQCompiler

variable {fs fs' fs'' : SQFuncState} {body other handler : Compile}

/-- A step that only emits code of expressions, wherever they begin. -/
def Emitting (fs fs' : SQFuncState) : Prop := ∀ base, Local base fs → Emits base fs fs'

namespace Emitting

theorem rfl : Emitting fs fs := fun _ h => ⟨h, le_rfl, .rfl⟩

theorem trans (h : Emitting fs fs') (h' : Emitting fs' fs'') : Emitting fs fs'' :=
  fun base hlocal => (h base hlocal).trans (h' base (h base hlocal).loc)

theorem emit (e : Exp) (source : ℕ) (fs : SQFuncState) : Emitting fs (e.emit source fs) :=
  fun _ h => h.emit e source

theorem labelled (e : Labelled) (fs : SQFuncState) : Emitting fs (e.emit fs) := emit _ _ fs

theorem of_eq (hcode : fs'.instructions = fs.instructions)
    (hopt : fs'.optimization = fs.optimization) (hsteady : Steady fs fs') : Emitting fs fs' :=
  fun _ h => h.emits_of_eq hcode hopt hsteady

theorem addInstruction {i : SQInstruction} (hi : i.IsLocal) (fs : SQFuncState) :
    Emitting fs (fs.addInstruction i) := fun _ h => h.emits_add hi

theorem add {op : SQOpcode} (hop : op.isPlain = true) (fs : SQFuncState) (a0 a1 a2 a3 : ℤ) :
    Emitting fs (fs.add op a0 a1 a2 a3) := addInstruction (.inl hop) fs

theorem popTarget (fs : SQFuncState) : Emitting fs fs.popTarget := fun _ h => h.emits_popTarget

theorem snoozeOpt (fs : SQFuncState) : Emitting fs fs.snoozeOpt := fun _ h => h.emits_snoozeOpt

theorem pushLocalVariable (fs : SQFuncState) : Emitting fs fs.pushLocalVariable :=
  of_eq (.refl _) (.refl _) ⟨.refl _, .refl _, .refl _, .refl _, .refl _, .refl _⟩

theorem setStackSize (fs : SQFuncState) (n : ℕ) : Emitting fs (fs.setStackSize n) :=
  of_eq (.refl _) (.refl _) ⟨.refl _, .refl _, .refl _, .refl _, .refl _, .refl _⟩

theorem beginScope (fs : SQFuncState) : Emitting fs fs.beginScope :=
  of_eq (.refl _) (.refl _) ⟨.refl _, .refl _, .refl _, .refl _, .refl _, .refl _⟩

theorem endScope (fs : SQFuncState) (oldscope : ℕ) : Emitting fs (fs.endScope oldscope) := by
  have hscope : ∀ fs : SQFuncState, Emitting fs { fs with scope := oldscope } := fun fs =>
    of_eq (.refl _) (.refl _) ⟨.refl _, .refl _, .refl _, .refl _, .refl _, .refl _⟩
  unfold SQFuncState.endScope
  dsimp only
  split_ifs
  · exact (setStackSize fs _).trans ((add (.refl _) _ _ _ _ _).trans (hscope _))
  · exact (setStackSize fs _).trans (hscope _)
  · exact hscope fs

theorem endScopeNoClose (fs : SQFuncState) (oldscope : ℕ) :
    Emitting fs (fs.endScopeNoClose oldscope) := by
  have hscope : ∀ fs : SQFuncState, Emitting fs { fs with scope := oldscope } := fun fs =>
    of_eq (.refl _) (.refl _) ⟨.refl _, .refl _, .refl _, .refl _, .refl _, .refl _⟩
  unfold SQFuncState.endScopeNoClose
  dsimp only
  split_ifs
  · exact (setStackSize fs _).trans (hscope _)
  · exact hscope fs

theorem resolveOuters (fs : SQFuncState) : Emitting fs fs.resolveOuters := by
  unfold SQFuncState.resolveOuters
  split_ifs
  · exact add (.refl _) _ _ _ _ _
  · exact rfl
  · exact rfl

theorem addLineInfos (fs : SQFuncState) (line : ℕ) (force : Bool) :
    Emitting fs (fs.addLineInfos line force) := by
  have hline : ∀ fs : SQFuncState, Emitting fs { fs with lastline := line } := fun fs =>
    of_eq (.refl _) (.refl _) ⟨.refl _, .refl _, .refl _, .refl _, .refl _, .refl _⟩
  unfold SQFuncState.addLineInfos
  dsimp only
  split_ifs
  · exact (add (.refl _) _ _ _ _ _).trans (hline _)
  · exact hline fs
  · exact rfl

end Emitting

theorem Emitting.steady (h : Emitting fs fs') : Steady fs fs' := by
  obtain ⟨base, -, hlocal⟩ := exists_start fs
  exact (h base hlocal).steady

/-- What no statement changes, in the end. -/
structure Settled (fs fs' : SQFuncState) : Prop where
  traps : fs'.traps = fs.traps
  breaktargets : fs'.breaktargets = fs.breaktargets
  continuetargets : fs'.continuetargets = fs.continuetargets
  notes : ∀ note ∈ fs.notes, note ∈ fs'.notes

theorem Settled.rfl : Settled fs fs := ⟨.refl _, .refl _, .refl _, fun _ h => h⟩

theorem Settled.trans (h : Settled fs fs') (h' : Settled fs' fs'') : Settled fs fs'' :=
  ⟨h'.traps.trans h.traps, h'.breaktargets.trans h.breaktargets,
    h'.continuetargets.trans h.continuetargets, fun note hn => h'.notes note (h.notes note hn)⟩

theorem Steady.settled (h : Steady fs fs') : Settled fs fs' :=
  ⟨h.traps, h.breaktargets, h.continuetargets, fun _ hn => h.notes ▸ hn⟩

theorem Emitting.settled (h : Emitting fs fs') : Settled fs fs' := h.steady.settled

theorem settled_patch (fs : SQFuncState) (pos : ℤ) (f : SQInstruction → SQInstruction) :
    Settled fs (fs.modifyInstruction pos f) := (steady_modifyInstruction fs pos f).settled

theorem settled_add (fs : SQFuncState) (op : SQOpcode) (a0 a1 a2 a3 : ℤ) :
    Settled fs (fs.add op a0 a1 a2 a3) := (steady_addInstruction fs _).settled

theorem settled_emitJz (e : Labelled) (fs : SQFuncState) (arg1 : ℤ) :
    Settled fs (e.emitJz fs arg1) :=
  ((Emitting.labelled e fs).trans (.popTarget _)).settled.trans
    (steady_addInstruction _ _).settled

theorem steady_readd (fs : SQFuncState) (exp : List SQInstruction) : Steady fs (readd fs exp) := by
  induction exp generalizing fs with
  | nil => exact .rfl
  | cons i exp ih => exact (steady_addInstruction fs i).trans (ih _)

/-- What patching unresolved jumps leaves as it is. -/
theorem settled_resolveBreaks (n : ℕ) (fs : SQFuncState) :
    Settled fs (SQFuncState.resolveBreaks n fs) := by
  induction n generalizing fs with
  | zero => exact .rfl
  | succ n ih =>
    unfold SQFuncState.resolveBreaks
    split
    · exact .rfl
    · have hrest : ∀ l, Settled fs { fs with unresolvedbreaks := l } := fun l =>
        ⟨.refl _, .refl _, .refl _, fun _ h => h⟩
      exact (hrest _).trans ((settled_patch _ _ _).trans (ih _))

theorem settled_resolveContinues (targetpos : ℤ) (n : ℕ) (fs : SQFuncState) :
    Settled fs (SQFuncState.resolveContinues targetpos n fs) := by
  induction n generalizing fs with
  | zero => exact .rfl
  | succ n ih =>
    unfold SQFuncState.resolveContinues
    split
    · exact .rfl
    · have hrest : ∀ l, Settled fs { fs with unresolvedcontinues := l } := fun l =>
        ⟨.refl _, .refl _, .refl _, fun _ h => h⟩
      exact (hrest _).trans ((settled_patch _ _ _).trans (ih _))

/-- A loop from `BEGIN_BREAKBLE_BLOCK` to `END_BREAKBLE_BLOCK`. -/
theorem Settled.breakable (h : Settled fs.beginBreakable fs') (nb nc : ℕ) (target : ℤ) :
    Settled fs (fs'.endBreakable nb nc target) := by
  have hc := settled_resolveContinues target (fs'.unresolvedcontinues.length - nc) fs'
  have hb := settled_resolveBreaks (fs'.unresolvedbreaks.length - nb)
    (SQFuncState.resolveContinues target (fs'.unresolvedcontinues.length - nc) fs')
  have hall := h.trans (hc.trans hb)
  refine ⟨hall.traps, ?_, ?_, hall.notes⟩
  · exact congrArg List.tail hall.breaktargets
  · exact congrArg List.tail hall.continuetargets

/-- Compiling settles. -/
def Settles (c : Compile) : Prop := ∀ fs fs', c fs = .ok fs' → Settled fs fs'

theorem inScope_ok (h : inScope body fs = .ok fs') :
    ∃ fs₁, body fs.beginScope = .ok fs₁ ∧ fs' = fs₁.endScope fs.scope := by
  obtain ⟨fs₁, hbody, hok⟩ := exists_of_bind_eq_ok h
  exact ⟨fs₁, hbody, (Except.ok.inj hok).symm⟩

theorem Settles.inScope (hbody : Settles body) : Settles (inScope body) := by
  intro fs fs' h
  obtain ⟨fs₁, h₁, rfl⟩ := inScope_ok h
  exact (Emitting.beginScope fs).settled.trans
    ((hbody _ _ h₁).trans (Emitting.endScope fs₁ _).settled)

theorem ifThenStatement_ok {cond : Labelled} (h : ifThenStatement body cond fs = .ok fs') :
    ∃ fs₁, inScope body (cond.emitJz fs 0) = .ok fs₁ ∧
      fs' = fs₁.setArg1 (cond.emitJz fs 0).getCurrentPos
        (fs₁.getCurrentPos - (cond.emitJz fs 0).getCurrentPos) := by
  obtain ⟨fs₁, hbody, hok⟩ := exists_of_bind_eq_ok h
  exact ⟨fs₁, hbody, (Except.ok.inj hok).symm⟩

theorem Settles.ifThen (hbody : Settles body) (cond : Labelled) :
    Settles (ifThenStatement body cond) := by
  intro fs fs' h
  obtain ⟨fs₁, h₁, rfl⟩ := ifThenStatement_ok h
  exact (settled_emitJz cond fs 0).trans ((hbody.inScope _ _ h₁).trans (settled_patch _ _ _))

theorem ifElseStatement_ok {cond : Labelled}
    (h : ifElseStatement body other cond fs = .ok fs') :
    ∃ fs₁ fs₂, inScope body (cond.emitJz fs 0) = .ok fs₁ ∧
      other (fs₁.beginScope.add .JMP 0 0 0 0) = .ok fs₂ ∧
      fs' = ((fs₂.endScope fs₁.scope).setArg1 (fs₁.beginScope.add .JMP 0 0 0 0).getCurrentPos
        ((fs₂.endScope fs₁.scope).getCurrentPos -
          (fs₁.beginScope.add .JMP 0 0 0 0).getCurrentPos)).setArg1
        (cond.emitJz fs 0).getCurrentPos
        (fs₁.getCurrentPos - (cond.emitJz fs 0).getCurrentPos + 1) := by
  obtain ⟨fs₁, hbody, h⟩ := exists_of_bind_eq_ok h
  obtain ⟨fs₂, hother, hok⟩ := exists_of_bind_eq_ok h
  exact ⟨fs₁, fs₂, hbody, hother, (Except.ok.inj hok).symm⟩

theorem Settles.ifElse (hbody : Settles body) (hother : Settles other) (cond : Labelled) :
    Settles (ifElseStatement body other cond) := by
  intro fs fs' h
  obtain ⟨fs₁, fs₂, h₁, h₂, rfl⟩ := ifElseStatement_ok h
  have hjmp : Settled fs₁ (fs₁.beginScope.add .JMP 0 0 0 0) :=
    (Emitting.beginScope fs₁).settled.trans (settled_add _ _ _ _ _ _)
  exact (settled_emitJz cond fs 0).trans ((hbody.inScope _ _ h₁).trans (hjmp.trans
    ((hother _ _ h₂).trans ((Emitting.endScope fs₂ _).settled.trans
      ((settled_patch _ _ _).trans (settled_patch _ _ _))))))

/-- The end of a `while`: the jump back, and the targets. -/
def endWhile (fs : SQFuncState) (nbreaks ncontinues : ℕ) (jmppos jzpos : ℤ) : SQFuncState :=
  let fs := fs.add .JMP 0 (jmppos - fs.getCurrentPos - 1) 0 0
  let fs := fs.setArg1 jzpos (fs.getCurrentPos - jzpos)
  fs.endBreakable nbreaks ncontinues jmppos

def beginWhile (fs : SQFuncState) (cond : Labelled) : SQFuncState :=
  let fs := cond.emit fs
  let target := fs.topTarget
  fs.beginBreakable.popTarget.addInstruction (.ofArgs (some cond.label) .JZ target 0 0 0)

theorem whileStatement_ok {cond : Labelled} (h : whileStatement body cond fs = .ok fs') :
    ∃ fs₁, inScope body (beginWhile fs cond) = .ok fs₁ ∧
      fs' = endWhile fs₁ (cond.emit fs).unresolvedbreaks.length
        (cond.emit fs).unresolvedcontinues.length fs.getCurrentPos
        (beginWhile fs cond).getCurrentPos := by
  obtain ⟨fs₁, hbody, hok⟩ := exists_of_bind_eq_ok h
  exact ⟨fs₁, hbody, (Except.ok.inj hok).symm⟩

theorem Settles.while (hbody : Settles body) (cond : Labelled) :
    Settles (whileStatement body cond) := by
  intro fs fs' h
  obtain ⟨fs₁, h₁, rfl⟩ := whileStatement_ok h
  have hjz : Settled (cond.emit fs).beginBreakable (beginWhile fs cond) :=
    (Emitting.popTarget _).settled.trans (steady_addInstruction _ _).settled
  exact (Emitting.labelled cond fs).settled.trans (Settled.breakable (hjz.trans
    ((hbody.inScope _ _ h₁).trans ((settled_add _ _ _ _ _ _).trans (settled_patch _ _ _)))) _ _ _)

theorem doWhileStatement_ok {cond : Labelled} (h : doWhileStatement body cond fs = .ok fs') :
    ∃ fs₁, inScope body fs.beginBreakable = .ok fs₁ ∧
      fs' = ((cond.emitJz fs₁ 1).add .JMP 0
        (fs.getCurrentPos - (cond.emitJz fs₁ 1).getCurrentPos - 1) 0 0).endBreakable
        fs.unresolvedbreaks.length fs.unresolvedcontinues.length fs₁.getCurrentPos := by
  obtain ⟨fs₁, hbody, hok⟩ := exists_of_bind_eq_ok h
  exact ⟨fs₁, hbody, (Except.ok.inj hok).symm⟩

theorem Settles.doWhile (hbody : Settles body) (cond : Labelled) :
    Settles (doWhileStatement body cond) := by
  intro fs fs' h
  obtain ⟨fs₁, h₁, rfl⟩ := doWhileStatement_ok h
  exact Settled.breakable ((hbody.inScope _ _ h₁).trans ((settled_emitJz cond fs₁ 1).trans
    (settled_add _ _ _ _ _ _))) _ _ _

def startFor (fs : SQFuncState) (start : Labelled) : SQFuncState :=
  (start.emit fs.beginScope).snoozeOpt

def incrementCode (fs : SQFuncState) (increment : Labelled) : List SQInstruction :=
  (increment.emit fs).snoozeOpt.instructions.drop fs.instructions.length

/-- The increment is emitted and taken away. -/
def popIncrement (fs : SQFuncState) (increment : Labelled) : SQFuncState :=
  (increment.emit fs).snoozeOpt.popInstructions (incrementCode fs increment).length

/-- The increment at the end of the body. -/
def againIncrement (fs : SQFuncState) (jzpos : ℤ) (exp : List SQInstruction) : SQFuncState :=
  { readd fs exp with notes := .increment jzpos exp (readdLengths fs exp) :: fs.notes }

/-- The jump out of a `for` is patched, unless it is the first instruction. -/
def jumpOut (fs : SQFuncState) (jzpos : ℤ) : SQFuncState :=
  if jzpos > 0 then fs.setArg1 jzpos (fs.getCurrentPos - jzpos) else fs

/-- The end of a `for`: the jump back, the jump out, and the targets. -/
def endFor (fs : SQFuncState) (oldscope nbreaks ncontinues : ℕ)
    (continuetrg jmppos jzpos : ℤ) : SQFuncState :=
  ((jumpOut (fs.add .JMP 0 (jmppos - fs.getCurrentPos - 1) 0 0) jzpos).endScope
    oldscope).endBreakable nbreaks ncontinues continuetrg

theorem settled_jumpOut (fs : SQFuncState) (jzpos : ℤ) : Settled fs (jumpOut fs jzpos) := by
  unfold jumpOut
  split_ifs
  · exact settled_patch _ _ _
  · exact .rfl

theorem forStatement_ok {start increment : Labelled} {cond : Option Labelled}
    (h : forStatement body start cond increment fs = .ok fs') :
    ∃ fs₁ fs₂ jzpos fs₃ fs₄, fs₁ = startFor fs start ∧ forCondition fs₁ cond = (fs₂, jzpos) ∧
      fs₃ = popIncrement fs₂.snoozeOpt increment ∧ body fs₃.beginBreakable = .ok fs₄ ∧
      fs' = endFor (againIncrement fs₄ jzpos (incrementCode fs₂.snoozeOpt increment)) fs.scope
        fs₃.unresolvedbreaks.length fs₃.unresolvedcontinues.length fs₄.getCurrentPos
        fs₁.getCurrentPos jzpos := by
  obtain ⟨fs₄, hbody, hok⟩ := exists_of_bind_eq_ok h
  exact ⟨_, _, _, _, fs₄, rfl, rfl, rfl, hbody, (Except.ok.inj hok).symm⟩

private theorem settled_forCondition (fs : SQFuncState) (cond : Option Labelled) :
    Settled fs (forCondition fs cond).1 := by
  cases cond with
  | none => exact .rfl
  | some cond => exact settled_emitJz cond fs 0

private theorem settled_popIncrement (fs : SQFuncState) (increment : Labelled) :
    Settled fs (popIncrement fs increment) := by
  have hpop : ∀ (fs : SQFuncState) n, Settled fs (fs.popInstructions n) := fun _ _ =>
    ⟨rfl, rfl, rfl, fun _ h => h⟩
  exact (Emitting.labelled increment fs).settled.trans
    ((Emitting.snoozeOpt _).settled.trans (hpop _ _))

theorem settled_againIncrement (fs : SQFuncState) (jzpos : ℤ) (exp : List SQInstruction) :
    Settled fs (againIncrement fs jzpos exp) := by
  have h := steady_readd fs exp
  exact ⟨h.traps, h.breaktargets, h.continuetargets, fun _ hn => List.mem_cons_of_mem _ hn⟩

theorem Settles.for (hbody : Settles body) (start increment : Labelled)
    (cond : Option Labelled) : Settles (forStatement body start cond increment) := by
  intro fs fs' h
  obtain ⟨fs₁, fs₂, jzpos, fs₃, fs₄, rfl, hcond, rfl, h₄, rfl⟩ := forStatement_ok h
  have hstart : Settled fs (startFor fs start) := ((Emitting.beginScope fs).trans
    ((Emitting.labelled start _).trans (.snoozeOpt _))).settled
  have htest := settled_forCondition (startFor fs start) cond
  rw [hcond] at htest
  refine hstart.trans (htest.trans ((Emitting.snoozeOpt fs₂).settled.trans
    ((settled_popIncrement _ increment).trans ?_)))
  exact Settled.breakable ((hbody _ _ h₄).trans ((settled_againIncrement fs₄ jzpos _).trans
    ((settled_add _ _ _ _ _ _).trans ((settled_jumpOut _ _).trans
      (Emitting.endScope _ _).settled)))) _ _ _

/-- A `foreach` up to its iteration: the three variables. -/
def startForeach (fs : SQFuncState) (container : Labelled) : SQFuncState :=
  let fs := container.emit fs.beginScope
  let fs := fs.pushLocalVariable.add .LOADNULLS fs.getStackSize 1 0 0
  let fs := fs.pushLocalVariable.add .LOADNULLS fs.getStackSize 1 0 0
  fs.pushLocalVariable.add .LOADNULLS fs.getStackSize 1 0 0

/-- The two instructions that iterate. -/
def iterate (fs : SQFuncState) (source : Option ℕ) (target indexpos : ℕ) : SQFuncState :=
  (fs.addInstruction (.ofArgs source .FOREACH target 0 indexpos 0)).addInstruction
    (.ofArgs source .POSTFOREACH target 0 indexpos 0)

private theorem settled_iterate (fs : SQFuncState) (source : Option ℕ) (target indexpos : ℕ) :
    Settled fs (iterate fs source target indexpos) :=
  ((steady_addInstruction _ _).trans (steady_addInstruction _ _)).settled

/-- The end of a `foreach`: the jump back, the jumps out, and the targets. -/
def endForeach (fs : SQFuncState) (oldscope nbreaks ncontinues : ℕ) (jmppos foreachpos : ℤ) :
    SQFuncState :=
  let fs := fs.add .JMP 0 (jmppos - fs.getCurrentPos - 1) 0 0
  let fs := fs.setArg1 foreachpos (fs.getCurrentPos - foreachpos)
  let fs := fs.setArg1 (foreachpos + 1) (fs.getCurrentPos - foreachpos)
  let fs := fs.endBreakable nbreaks ncontinues (foreachpos - 1)
  fs.popTarget.endScope oldscope

theorem foreachStatement_ok {container : Labelled}
    (h : foreachStatement body container fs = .ok fs') :
    ∃ target indexpos fs₁ fs₂ foreachpos fs₃, fs₁ = startForeach fs container ∧
      fs₂ = iterate fs₁ (some container.label) target indexpos ∧
      foreachpos = (fs₁.addInstruction
        (.ofArgs (some container.label) .FOREACH target 0 indexpos 0)).getCurrentPos ∧
      body fs₂.beginBreakable = .ok fs₃ ∧
      fs' = endForeach fs₃ fs.scope fs₂.unresolvedbreaks.length fs₂.unresolvedcontinues.length
        fs₁.getCurrentPos foreachpos := by
  obtain ⟨fs₃, hbody, hok⟩ := exists_of_bind_eq_ok h
  exact ⟨_, _, _, _, _, fs₃, rfl, rfl, rfl, hbody, (Except.ok.inj hok).symm⟩

theorem Emitting.startForeach (fs : SQFuncState) (container : Labelled) :
    Emitting fs (startForeach fs container) := by
  have hvar : ∀ (fs : SQFuncState) (n : ℕ),
      Emitting fs (fs.pushLocalVariable.add .LOADNULLS n 1 0 0) := fun fs n =>
    (pushLocalVariable fs).trans (add (.refl _) _ _ _ _ _)
  exact (beginScope fs).trans ((labelled container _).trans
    ((hvar _ _).trans ((hvar _ _).trans (hvar _ _))))

theorem Settles.foreach (hbody : Settles body) (container : Labelled) :
    Settles (foreachStatement body container) := by
  intro fs fs' h
  obtain ⟨target, indexpos, fs₁, fs₂, foreachpos, fs₃, rfl, rfl, rfl, h₃, rfl⟩ :=
    foreachStatement_ok h
  refine (Emitting.startForeach fs container).settled.trans
    ((settled_iterate _ (some container.label) target indexpos).trans ?_)
  unfold endForeach
  exact (Settled.breakable ((hbody _ _ h₃).trans ((settled_add _ _ _ _ _ _).trans
    ((settled_patch _ _ _).trans (settled_patch _ _ _)))) _ _ _).trans
      ((Emitting.popTarget _).trans (.endScope _ _)).settled

/-- The jump over the test of a case from the one before it. -/
def skipTest (fs : SQFuncState) (tonextcondjmp : ℤ) : SQFuncState × ℤ :=
  if tonextcondjmp ≠ -1 then
    let fs := fs.add .JMP 0 0 0 0
    (fs.setArg1 tonextcondjmp (fs.getCurrentPos - tonextcondjmp), fs.getCurrentPos)
  else (fs, -1)

def testCase (fs : SQFuncState) (test : Labelled) (expr : ℕ) : SQFuncState :=
  let fs := test.emit fs
  let trg := fs.topTarget
  (fs.popTarget.add .EQ trg trg expr 0).addInstruction (.ofArgs (some test.label) .JZ trg 0 0 0)

/-- The jump over the test ends after it. -/
def endTest (fs : SQFuncState) (skipcondjmp : ℤ) : SQFuncState :=
  if skipcondjmp ≠ -1 then fs.setArg1 skipcondjmp (fs.getCurrentPos - skipcondjmp) else fs

theorem caseClause_ok {expr : ℕ} {test : Labelled} {tonextcondjmp tonextcondjmp' : ℤ}
    (h : caseClause body expr test tonextcondjmp fs = .ok (fs', tonextcondjmp')) :
    ∃ fs₁ skipcondjmp fs₂, skipTest fs tonextcondjmp = (fs₁, skipcondjmp) ∧
      fs₂ = endTest (testCase fs₁ test expr) skipcondjmp ∧
      inScope body fs₂ = .ok fs' ∧ tonextcondjmp' = fs₂.getCurrentPos := by
  obtain ⟨fs₃, hbody, hok⟩ := exists_of_bind_eq_ok h
  cases Except.ok.inj hok
  exact ⟨_, _, _, rfl, rfl, hbody, rfl⟩

theorem settled_skipTest (fs : SQFuncState) (tonextcondjmp : ℤ) :
    Settled fs (skipTest fs tonextcondjmp).1 := by
  unfold skipTest
  split_ifs
  · exact (settled_add _ _ _ _ _ _).trans (settled_patch _ _ _)
  · exact .rfl

theorem settled_testCase (fs : SQFuncState) (test : Labelled) (expr : ℕ) :
    Settled fs (testCase fs test expr) :=
  ((Emitting.labelled test fs).trans (.popTarget _)).settled.trans
    ((settled_add _ _ _ _ _ _).trans (steady_addInstruction _ _).settled)

theorem settled_endTest (fs : SQFuncState) (skipcondjmp : ℤ) :
    Settled fs (endTest fs skipcondjmp) := by
  unfold endTest
  split_ifs
  · exact settled_patch _ _ _
  · exact .rfl

theorem Settles.caseClause (hbody : Settles body) {expr : ℕ} {test : Labelled}
    {tonextcondjmp tonextcondjmp' : ℤ}
    (h : caseClause body expr test tonextcondjmp fs = .ok (fs', tonextcondjmp')) :
    Settled fs fs' := by
  obtain ⟨fs₁, skipcondjmp, fs₂, hskip, rfl, h₂, -⟩ := caseClause_ok h
  have hskips := settled_skipTest fs tonextcondjmp
  rw [hskip] at hskips
  exact hskips.trans ((settled_testCase _ _ _).trans ((settled_endTest _ _).trans
    (hbody.inScope _ _ h₂)))

/-- The last test that fails goes to the end. -/
def endCases (fs : SQFuncState) (tonextcondjmp : ℤ) : SQFuncState :=
  if tonextcondjmp ≠ -1 then
    fs.setArg1 tonextcondjmp (fs.getCurrentPos - tonextcondjmp) else fs

theorem settled_endCases (fs : SQFuncState) (tonextcondjmp : ℤ) :
    Settled fs (endCases fs tonextcondjmp) := by
  unfold endCases
  split_ifs
  · exact settled_patch _ _ _
  · exact .rfl

theorem Settles.afterCases {default : Option Compile}
    (hdefault : ∀ body, default = some body → Settles body) (tonextcondjmp : ℤ) :
    Settles (afterCases default tonextcondjmp) := by
  intro fs fs' h
  refine (settled_endCases fs tonextcondjmp).trans ?_
  cases default with
  | none =>
    obtain rfl := Except.ok.inj h
    exact .rfl
  | some body => exact (hdefault body rfl).inScope _ _ h

theorem switchStatement_ok {value : Labelled} {cases : ℕ → Compile}
    (h : switchStatement value cases fs = .ok fs') :
    ∃ fs₁ expr fs₂, fs₁ = value.emit fs ∧
      cases expr { fs₁ with breaktargets := 0 :: fs₁.breaktargets } = .ok fs₂ ∧
      fs' = { SQFuncState.resolveBreaks
          (fs₂.popTarget.unresolvedbreaks.length - fs₁.unresolvedbreaks.length) fs₂.popTarget with
        breaktargets := (SQFuncState.resolveBreaks
          (fs₂.popTarget.unresolvedbreaks.length - fs₁.unresolvedbreaks.length)
          fs₂.popTarget).breaktargets.tail } := by
  obtain ⟨fs₂, hcases, hok⟩ := exists_of_bind_eq_ok h
  exact ⟨_, _, fs₂, rfl, hcases, (Except.ok.inj hok).symm⟩

theorem Settles.switch {cases : ℕ → Compile} (hcases : ∀ expr, Settles (cases expr))
    (value : Labelled) : Settles (switchStatement value cases) := by
  intro fs fs' h
  obtain ⟨fs₁, expr, fs₂, rfl, h₂, rfl⟩ := switchStatement_ok h
  have hall := (hcases _ _ _ h₂).trans ((Emitting.popTarget fs₂).settled.trans
    (settled_resolveBreaks (fs₂.popTarget.unresolvedbreaks.length -
      (value.emit fs).unresolvedbreaks.length) _))
  refine (Emitting.labelled value fs).settled.trans ⟨hall.traps, ?_, hall.continuetargets,
    hall.notes⟩
  exact congrArg List.tail hall.breaktargets

theorem settled_addPopTrap (fs : SQFuncState) (ntraps : ℕ) : Settled fs (addPopTrap fs ntraps) := by
  unfold addPopTrap
  split_ifs
  · exact settled_add _ _ _ _ _ _
  · exact .rfl

/-- The code of `break` and `continue`. -/
def leave (fs : SQFuncState) (ntraps : ℕ) : SQFuncState :=
  (addPopTrap fs ntraps).resolveOuters.add .JMP 0 (-1234) 0 0

theorem settled_leave (fs : SQFuncState) (ntraps : ℕ) : Settled fs (leave fs ntraps) :=
  (settled_addPopTrap fs ntraps).trans ((Emitting.resolveOuters _).settled.trans
    (settled_add _ _ _ _ _ _))

theorem breakStatement_ok {tries : ℕ} (h : breakStatement tries fs = .ok fs') :
    ∃ ntraps rest, fs.breaktargets = ntraps :: rest ∧
      fs' = { leave fs ntraps with
        unresolvedbreaks := (leave fs ntraps).getCurrentPos :: (leave fs ntraps).unresolvedbreaks
        notes := .jump (leave fs ntraps).getCurrentPos tries :: (leave fs ntraps).notes } := by
  unfold breakStatement at h
  split at h
  · cases h
  · rename_i ntraps rest heq
    exact ⟨ntraps, rest, heq, (Except.ok.inj h).symm⟩

theorem continueStatement_ok {tries : ℕ} (h : continueStatement tries fs = .ok fs') :
    ∃ ntraps rest, fs.continuetargets = ntraps :: rest ∧
      fs' = { leave fs ntraps with
        unresolvedcontinues :=
          (leave fs ntraps).getCurrentPos :: (leave fs ntraps).unresolvedcontinues
        notes := .jump (leave fs ntraps).getCurrentPos tries :: (leave fs ntraps).notes } := by
  unfold continueStatement at h
  split at h
  · cases h
  · rename_i ntraps rest heq
    exact ⟨ntraps, rest, heq, (Except.ok.inj h).symm⟩

theorem settles_break (tries : ℕ) : Settles (breakStatement tries) := by
  intro fs fs' h
  obtain ⟨ntraps, rest, -, rfl⟩ := breakStatement_ok h
  have hleave := settled_leave fs ntraps
  exact ⟨hleave.traps, hleave.breaktargets, hleave.continuetargets,
    fun note hn => List.mem_cons_of_mem _ (hleave.notes note hn)⟩

theorem settles_continue (tries : ℕ) : Settles (continueStatement tries) := by
  intro fs fs' h
  obtain ⟨ntraps, rest, -, rfl⟩ := continueStatement_ok h
  have hleave := settled_leave fs ntraps
  exact ⟨hleave.traps, hleave.breaktargets, hleave.continuetargets,
    fun note hn => List.mem_cons_of_mem _ (hleave.notes note hn)⟩

theorem settled_return (fs : SQFuncState) (op : SQOpcode) (value : Option Labelled) :
    Settled fs (returnStatement fs op value) := by
  have hreturnexp : ∀ (fs : SQFuncState) n, Settled fs { fs with returnexp := n } := fun _ _ =>
    ⟨rfl, rfl, rfl, fun _ h => h⟩
  have hpop : ∀ (fs : SQFuncState) (p : Prop) [Decidable p],
      Settled fs (if p then addPopTrap fs fs.traps else fs) := by
    intro fs p _
    split_ifs
    · exact settled_addPopTrap fs _
    · exact .rfl
  cases value with
  | none => exact (hpop fs _).trans ((hreturnexp _ _).trans (settled_add _ _ _ _ _ _))
  | some value =>
    exact (Emitting.labelled value fs).settled.trans ((hpop _ _).trans
      ((Emitting.popTarget _).settled.trans ((hreturnexp _ _).trans (settled_add _ _ _ _ _ _))))

/-- A `try` up to its body. -/
def startTry (fs : SQFuncState) : SQFuncState := countTrap (fs.add .PUSHTRAP 0 0 0 0)

/-- The end of the body of a `try`, up to its jump. -/
def endTry (fs : SQFuncState) : SQFuncState :=
  (uncountTargets ((uncountTrap fs).add .POPTRAP 1 0 0 0)).add .JMP 0 0 0 0

def startCatch (fs : SQFuncState) (trappos : ℤ) : SQFuncState :=
  let fs := (fs.setArg1 trappos (fs.getCurrentPos - trappos)).beginScope
  fs.pushLocalVariable.setArg0 trappos fs.getStackSize

def endCatch (fs : SQFuncState) (jmppos : ℤ) (oldscope : ℕ) : SQFuncState :=
  (fs.setIntructionParams jmppos 0 (fs.getCurrentPos - jmppos)).endScope oldscope

theorem tryCatchStatement_ok (h : tryCatchStatement body handler fs = .ok fs') :
    ∃ fs₁ fs₂ oldscope, inScope body (startTry fs) = .ok fs₁ ∧
      handler (startCatch (endTry fs₁) (startTry fs).getCurrentPos) = .ok fs₂ ∧
      fs' = endCatch fs₂ (endTry fs₁).getCurrentPos oldscope := by
  obtain ⟨fs₁, hbody, h⟩ := exists_of_bind_eq_ok h
  obtain ⟨fs₂, hhandler, hok⟩ := exists_of_bind_eq_ok h
  exact ⟨fs₁, fs₂, _, hbody, hhandler, (Except.ok.inj hok).symm⟩

private theorem modifyTop_modifyTop (l : List ℕ) : modifyTop (· - 1) (modifyTop (· + 1) l) = l := by
  cases l <;> rfl

theorem settled_startCatch (fs : SQFuncState) (trappos : ℤ) :
    Settled fs (startCatch fs trappos) :=
  (settled_patch _ _ _).trans ((Emitting.beginScope _).settled.trans
    ((Emitting.pushLocalVariable _).settled.trans (settled_patch _ _ _)))

theorem settled_endCatch (fs : SQFuncState) (jmppos : ℤ) (oldscope : ℕ) :
    Settled fs (endCatch fs jmppos oldscope) :=
  (settled_patch _ _ _).trans (Emitting.endScope _ _).settled

theorem notes_endTry (fs : SQFuncState) : (endTry fs).notes = fs.notes :=
  (steady_addInstruction (uncountTargets ((uncountTrap fs).add .POPTRAP 1 0 0 0))
    (.ofArgs none .JMP 0 0 0 0)).notes.trans
    (steady_addInstruction (uncountTrap fs) (.ofArgs none .POPTRAP 1 0 0 0)).notes

/-- The counts at the end of the body are those before the `try`. -/
theorem Settles.endTry (hbody : Settles body) {fs₁ : SQFuncState}
    (h₁ : SQCompiler.inScope body (startTry fs) = .ok fs₁) : Settled fs (endTry fs₁) := by
  have hpush := settled_add fs .PUSHTRAP 0 0 0 0
  have hin := hbody.inScope _ _ h₁
  have hpop := settled_add (uncountTrap fs₁) .POPTRAP 1 0 0 0
  have hjmp := settled_add (uncountTargets ((uncountTrap fs₁).add .POPTRAP 1 0 0 0)) .JMP 0 0 0 0
  refine ⟨?_, ?_, ?_, fun note hn => ?_⟩
  · rw [SQCompiler.endTry, hjmp.traps]
    change ((uncountTrap fs₁).add .POPTRAP 1 0 0 0).traps = fs.traps
    rw [hpop.traps]
    change fs₁.traps - 1 = fs.traps
    rw [hin.traps]
    change (fs.add .PUSHTRAP 0 0 0 0).traps + 1 - 1 = fs.traps
    rw [Nat.add_sub_cancel, hpush.traps]
  · rw [SQCompiler.endTry, hjmp.breaktargets, uncountTargets, hpop.breaktargets]
    change modifyTop (· - 1) fs₁.breaktargets = fs.breaktargets
    rw [hin.breaktargets]
    change modifyTop (· - 1) (modifyTop (· + 1) (fs.add .PUSHTRAP 0 0 0 0).breaktargets) = _
    rw [modifyTop_modifyTop, hpush.breaktargets]
  · rw [SQCompiler.endTry, hjmp.continuetargets, uncountTargets, hpop.continuetargets]
    change modifyTop (· - 1) fs₁.continuetargets = fs.continuetargets
    rw [hin.continuetargets]
    change modifyTop (· - 1) (modifyTop (· + 1) (fs.add .PUSHTRAP 0 0 0 0).continuetargets) = _
    rw [modifyTop_modifyTop, hpush.continuetargets]
  · rw [notes_endTry]
    exact hin.notes note (hpush.notes note hn)

theorem Settles.tryCatch (hbody : Settles body) (hhandler : Settles handler) :
    Settles (tryCatchStatement body handler) := by
  intro fs fs' h
  obtain ⟨fs₁, fs₂, oldscope, h₁, h₂, rfl⟩ := tryCatchStatement_ok h
  exact (hbody.endTry h₁).trans ((settled_startCatch _ _).trans ((hhandler _ _ h₂).trans
    (settled_endCatch _ _ _)))

theorem settled_throw (fs : SQFuncState) (value : Labelled) :
    Settled fs (throwStatement fs value) :=
  (Emitting.labelled value fs).settled.trans ((Emitting.popTarget _).settled.trans
    (settled_add _ _ _ _ _ _))

/-- What `Statement` does before the form. -/
def startStatement (fs : SQFuncState) (line tries : ℕ) : SQFuncState :=
  { fs.addLineInfos line false with
    notes := .statement ((fs.addLineInfos line false).getCurrentPos + 1) tries ::
      (fs.addLineInfos line false).notes }

theorem withStatement_ok {line tries : ℕ} (h : withStatement body line tries fs = .ok fs') :
    ∃ fs₁, body (startStatement fs line tries) = .ok fs₁ ∧ fs' = fs₁.snoozeOpt := by
  obtain ⟨fs₁, hbody, hok⟩ := exists_of_bind_eq_ok h
  exact ⟨fs₁, hbody, (Except.ok.inj hok).symm⟩

theorem Settles.withStatement (hbody : Settles body) (line tries : ℕ) :
    Settles (withStatement body line tries) := by
  intro fs fs' h
  obtain ⟨fs₁, h₁, rfl⟩ := withStatement_ok h
  have hstart : Settled fs (startStatement fs line tries) := by
    have hlines := (Emitting.addLineInfos fs line false).settled
    exact ⟨hlines.traps, hlines.breaktargets, hlines.continuetargets,
      fun note hn => List.mem_cons_of_mem _ (hlines.notes note hn)⟩
  exact hstart.trans ((hbody _ _ h₁).trans (Emitting.snoozeOpt _).settled)

end Squirt.SQCompiler
