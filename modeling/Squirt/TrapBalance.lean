import Squirt.TrapExits

/-!
# The traps of a function

Every function with at most 255 bodies of `try` around one another is balanced, provided the
jumps in the increments of its `for` statements are kept.
-/

namespace Squirt.SQCompiler

variable {fs fs' : SQFuncState} {tags : Tags} {T Tb Tc : List ℕ} {lex : Lexical} {body : Compile}

mutual

/-- How many bodies of `try` there are around one another. -/
def Stmt.tryDepth : Stmt → ℕ
  | .mk _ form => form.tryDepth

def Form.tryDepth : Form → ℕ
  | .ifThen _ body | .while _ body | .doWhile body _ | .for _ _ _ body | .foreach _ body =>
    body.tryDepth
  | .ifElse _ body other => max body.tryDepth other.tryDepth
  | .switch _ cases => cases.tryDepth
  | .block body | .inNamespace body => body.tryDepth
  | .tryCatch body handler => max (body.tryDepth + 1) handler.tryDepth
  | .empty | .simple _ | .break | .continue | .return _ | .yield _ | .throw _ => 0

def Stmts.tryDepth : Stmts → ℕ
  | .nil => 0
  | .cons s ss => max s.tryDepth ss.tryDepth

def Cases.tryDepth : Cases → ℕ
  | .done => 0
  | .default body => body.tryDepth
  | .case _ body rest => max body.tryDepth rest.tryDepth

end

theorem compiles_empty : Compiles lex T Tb Tc fun fs => .ok fs :=
  ⟨fun _ _ hok => Except.ok.inj hok ▸ .rfl, fun _ _ tags _ hok hinv _ _ =>
    Except.ok.inj hok ▸ ⟨tags, hinv, .refl⟩⟩

private theorem compiles_simple (e : Labelled) : Compiles lex T Tb Tc fun fs => .ok (e.emit fs)
    := by
  refine ⟨fun fs _ hok => Except.ok.inj hok ▸ (Emitting.labelled e fs).settled,
    fun fs fs' tags P hok hinv _ _ => ?_⟩
  obtain rfl := Except.ok.inj hok
  obtain ⟨tags', hkeeps⟩ := (Emitting.labelled e fs).keeps hinv
  exact ⟨tags', hkeeps.1, hkeeps.2 Tb Tc⟩

theorem Compiles.seq {next : Compile} (h : Compiles lex T Tb Tc body)
    (hnext : Compiles lex T Tb Tc next) : Compiles lex T Tb Tc fun fs => body fs >>= next := by
  refine ⟨fun fs fs' hok => ?_, fun fs fs' tags P hok hinv hctx hkept => ?_⟩
  · obtain ⟨fs₁, h₁, h₂⟩ := exists_of_bind_eq_ok hok
    exact (h.settles _ _ h₁).trans (hnext.settles _ _ h₂)
  · obtain ⟨fs₁, h₁, h₂⟩ := exists_of_bind_eq_ok hok
    obtain ⟨tags₁, hinv₁, hc₁⟩ := h.typed _ _ tags P h₁ hinv hctx
      ((hnext.settles _ _ h₂).kept hkept)
    obtain ⟨tags₂, hinv₂, hc₂⟩ := hnext.typed _ _ tags₁ P h₂ hinv₁
      (hctx.settled (h.settles _ _ h₁)) hkept
    exact ⟨tags₂, hinv₂, hc₁.trans hc₂⟩

mutual

/-- Compiling a statement keeps the code typed. -/
theorem Stmt.compiles (lex : Lexical) (T Tb Tc : List ℕ) :
    ∀ s : Stmt, T.length + s.tryDepth ≤ 255 → Compiles lex T Tb Tc (s.compile lex)
  | .mk line form, h => (Form.compiles lex T Tb Tc form h).withStatement line

theorem Form.compiles (lex : Lexical) (T Tb Tc : List ℕ) :
    ∀ form : Form, T.length + form.tryDepth ≤ 255 → Compiles lex T Tb Tc (form.compile lex)
  | .empty, _ => compiles_empty
  | .simple e, _ => compiles_simple e
  | .ifThen cond body, h => (Stmt.compiles lex T Tb Tc body h).ifThen cond
  | .ifElse cond body other, h => by
    have hdepth : T.length + max body.tryDepth other.tryDepth ≤ 255 := h
    exact (Stmt.compiles lex T Tb Tc body (by omega)).ifElse
      (Stmt.compiles lex T Tb Tc other (by omega)) cond
  | .while cond body, h => (Stmt.compiles _ T T T body h).while cond
  | .doWhile body cond, h => (Stmt.compiles _ T T T body h).doWhile cond
  | .for start cond increment body, h => (Stmt.compiles _ T T T body h).for start increment cond
  | .foreach container body, h => (Stmt.compiles _ T T T body h).foreach container
  | .switch value cases, h =>
    Compiles.switch (fun expr => Cases.compiles _ T T Tc expr cases h) value
  | .block body, h => (Stmts.compiles lex T Tb Tc body h).inScope
  | .inNamespace body, h => Stmts.compiles lex T Tb Tc body h
  | .break, h => compiles_break h
  | .continue, h => compiles_continue h
  | .return value, h => compiles_return h value
  | .yield value, _ => compiles_yield value
  | .tryCatch body handler, h => by
    have hdepth : T.length + max (body.tryDepth + 1) handler.tryDepth ≤ 255 := h
    exact Compiles.tryCatch (fun m => Stmt.compiles _ (m :: T) Tb Tc body
      (by rw [List.length_cons]; omega)) (Stmt.compiles lex T Tb Tc handler (by omega))
  | .throw value, _ => compiles_throw value

theorem Stmts.compiles (lex : Lexical) (T Tb Tc : List ℕ) :
    ∀ ss : Stmts, T.length + ss.tryDepth ≤ 255 → Compiles lex T Tb Tc (ss.compile lex)
  | .nil, _ => compiles_empty
  | .cons s ss, h => by
    have hdepth : T.length + max s.tryDepth ss.tryDepth ≤ 255 := h
    exact (Stmt.compiles lex T Tb Tc s (by omega)).seq (Stmts.compiles lex T Tb Tc ss (by omega))

theorem Cases.compiles (lex : Lexical) (T Tb Tc : List ℕ) (expr : ℕ) :
    ∀ cases : Cases, T.length + cases.tryDepth ≤ 255 →
      CompilesFrom lex T Tb Tc (cases.compile lex expr)
  | .done, _ => CompilesFrom.afterCases none fun _ hbody => nomatch hbody
  | .default body, h => by
    refine CompilesFrom.afterCases (some (body.compile lex)) fun _ hbody => ?_
    obtain rfl := Option.some.inj hbody
    exact Stmts.compiles lex T Tb Tc body h
  | .case test body rest, h => by
    have hdepth : T.length + max body.tryDepth rest.tryDepth ≤ 255 := h
    exact CompilesFrom.case (Stmts.compiles lex T Tb Tc body (by omega))
      (Cases.compiles lex T Tb Tc expr rest (by omega)) expr test

end

private theorem Compiles.blockNoClose (hbody : Compiles lex T Tb Tc body) :
    Compiles lex T Tb Tc (blockStatementNoClose body) := by
  have hok : ∀ {fs fs'}, blockStatementNoClose body fs = .ok fs' →
      ∃ fs₁, body fs.beginScope = .ok fs₁ ∧ fs' = fs₁.endScopeNoClose fs.scope := by
    intro fs fs' h
    obtain ⟨fs₁, h₁, hok⟩ := exists_of_bind_eq_ok h
    exact ⟨fs₁, h₁, (Except.ok.inj hok).symm⟩
  refine ⟨fun fs fs' h => ?_, fun fs fs' tags P h hinv hctx hkept => ?_⟩
  all_goals obtain ⟨fs₁, h₁, rfl⟩ := hok h
  · exact (Emitting.beginScope fs).settled.trans
      ((hbody.settles _ _ h₁).trans (Emitting.endScopeNoClose fs₁ _).settled)
  · obtain ⟨tags₁, hbegin⟩ := (Emitting.beginScope fs).keeps hinv
    obtain ⟨tags₂, hinv₂, hc₂⟩ := hbody.typed _ _ tags₁ P h₁ hbegin.1
      (hctx.settled (Emitting.beginScope fs).settled)
      ((Emitting.endScopeNoClose fs₁ _).settled.kept hkept)
    obtain ⟨tags₃, hend⟩ := (Emitting.endScopeNoClose fs₁ fs.scope).keeps hinv₂
    exact ⟨tags₃, hend.1, (hbegin.2 _ _).trans (hc₂.trans (hend.2 _ _))⟩

private theorem Stmt.compiles_noClose (s : Stmt) (h : T.length + s.tryDepth ≤ 255) :
    Compiles lex T Tb Tc (s.compileNoClose lex) := by
  unfold Stmt.compileNoClose
  split
  · rename_i line body
    exact (Stmts.compiles lex T Tb Tc body h).blockNoClose.withStatement line
  · exact Stmt.compiles lex T Tb Tc s h

section Body

variable {fusion lineinfo parent : Bool} {line parameters : ℕ}

/-- All jumps have their targets, and there are no traps at the end. -/
structure Complete (fs : SQFuncState) (tags : Tags) : Prop where
  invariant : Invariant fs tags [] []
  breaks : fs.unresolvedbreaks = []
  continues : fs.unresolvedcontinues = []

private theorem complete_create :
    Complete (.create fusion lineinfo parent parameters) [[]] := by
  refine ⟨⟨⟨rfl, rfl, fun n i T hi _ => ?_, fun n i T hi _ _ => ?_, fun m T hmem => ?_⟩, rfl,
    fun _ hnote => ?_, fun _ _ hnote => ?_⟩, rfl, rfl⟩
  · cases hi
  · cases hi
  · simp at hmem
  · cases hnote
  · cases hnote

private theorem context_create :
    Context ⟨0, 0, 0⟩ [] Tb Tc (.create fusion lineinfo parent parameters) :=
  ⟨rfl, rfl, fun _ _ hk => (nomatch hk), fun _ _ hk => (nomatch hk)⟩

theorem Complete.emitting (h : Complete fs tags) (he : Emitting fs fs') :
    ∃ tags', Complete fs' tags' := by
  obtain ⟨tags', hkeeps⟩ := he.keeps h.invariant
  exact ⟨tags', hkeeps.1, he.steady.unresolvedbreaks.trans h.breaks,
    he.steady.unresolvedcontinues.trans h.continues⟩

theorem Complete.addReturn (h : Complete fs tags) {i : SQInstruction} (hi : i.op = .RETURN) :
    ∃ tags', Complete (fs.addInstruction i) tags' := by
  obtain ⟨tags', hinv, -⟩ := h.invariant.addReturn hi (List.mem_of_getElem? h.invariant.last)
    (.inl rfl)
  have hsteady := steady_addInstruction fs i
  exact ⟨tags', hinv, hsteady.unresolvedbreaks.trans h.breaks,
    hsteady.unresolvedcontinues.trans h.continues⟩

theorem Complete.endFunction (h : Complete fs tags) (line : ℕ) (arg0 : ℤ) :
    ∃ tags', Complete (endFunction fs line arg0) tags' := by
  obtain ⟨tags', hlines⟩ := h.emitting (.addLineInfos fs line true)
  exact hlines.addReturn rfl

/-- Outside of loops there is nothing to leave: no unresolved jump is left. -/
theorem Complete.compile (h : Complete fs tags)
    (hbody : ∀ Tb Tc, Compiles lex [] Tb Tc body) (hctx : ∀ Tb Tc, Context lex [] Tb Tc fs)
    (hok : body fs = .ok fs') (hkept : ∀ note ∈ fs'.notes, note.Kept) :
    ∃ tags', Complete fs' tags' := by
  -- there is no trap of this position
  obtain ⟨T, hT⟩ : ∃ T, T = [fs'.instructions.length] := ⟨_, rfl⟩
  obtain ⟨tags', hinv, hc⟩ := (hbody T T).typed fs fs' tags [] hok h.invariant (hctx T T) hkept
  have hno : ∀ b pos, ¬ LeavesAt b fs'.instructions tags' pos T := by
    rintro b pos ⟨n, i, -, -, -, -, hn⟩
    rw [hT] at hn
    obtain ⟨-, j, hj, -⟩ := hinv.typed.stack _ _ (List.mem_of_getElem? hn)
    rw [List.getElem?_eq_none le_rfl] at hj
    cases hj
  obtain ⟨bs, hbs, hb⟩ := hc.breaks
  obtain ⟨cs, hcs, hcl⟩ := hc.continues
  refine ⟨tags', hinv, ?_, ?_⟩
  · rw [hbs, h.breaks, List.append_nil]
    exact List.eq_nil_iff_forall_not_mem.mpr fun pos hpos => hno _ pos (hb pos hpos)
  · rw [hcs, h.continues, List.append_nil]
    exact List.eq_nil_iff_forall_not_mem.mpr fun pos hpos => hno _ pos (hcl pos hpos)

theorem Complete.paths_balanced (h : Complete fs tags) : Balanced fs.instructions fs.notes := by
  have htyped := h.invariant.typed
  rw [h.breaks, h.continues] at htyped
  exact Typed.paths_balanced htyped h.invariant.noted h.invariant.jumps

def Body.tryDepth : Body → ℕ
  | .main body => body.tryDepth
  | .function _ body => body.tryDepth
  | .lambda _ _ => 0

private theorem notes_endFunction (fs : SQFuncState) (line : ℕ) (arg0 : ℤ) :
    (endFunction fs line arg0).notes = fs.notes :=
  (steady_addInstruction _ _).notes.trans (Emitting.addLineInfos fs line true).steady.notes

/-- The traps of a function are balanced when every jump of an increment is as long where the
increment is added again. -/
theorem Body.balanced (body : Body) (hok : body.compile fusion lineinfo line = .ok fs)
    (hdepth : body.tryDepth ≤ 255) (hkept : ∀ note ∈ fs.notes, note.Kept) :
    Balanced fs.instructions fs.notes := by
  cases body with
  | main body =>
    obtain ⟨fs₁, h₁, hok⟩ := exists_of_bind_eq_ok hok
    obtain rfl := Except.ok.inj hok
    rw [notes_endFunction] at hkept
    obtain ⟨tags₁, hc₁⟩ := complete_create.compile
      (fun Tb Tc => Stmts.compiles ⟨0, 0, 0⟩ [] Tb Tc body ((Nat.zero_add _).trans_le hdepth))
      (fun _ _ => context_create) h₁ hkept
    obtain ⟨tags₂, hc₂⟩ := hc₁.emitting (.setStackSize fs₁ 2)
    obtain ⟨tags₃, hc₃⟩ := hc₂.endFunction line 0xFF
    exact hc₃.paths_balanced
  | function parameters body =>
    obtain ⟨fs₁, h₁, hok⟩ := exists_of_bind_eq_ok hok
    obtain rfl := Except.ok.inj hok
    rw [notes_endFunction] at hkept
    obtain ⟨tags₁, hc₁⟩ := complete_create.compile
      (fun Tb Tc => Stmt.compiles_noClose body ((Nat.zero_add _).trans_le hdepth))
      (fun _ _ => context_create) h₁ hkept
    obtain ⟨tags₂, hc₂⟩ := hc₁.endFunction line (-1)
    exact hc₂.paths_balanced
  | lambda parameters value =>
    obtain rfl := Except.ok.inj hok
    obtain ⟨tags₁, hc₁⟩ := complete_create.emitting ((Emitting.labelled value _).trans (.popTarget _))
    obtain ⟨tags₂, hc₂⟩ := hc₁.addReturn (i := .ofArgs none .RETURN 1 _ 0 0) rfl
    obtain ⟨tags₃, hc₃⟩ := hc₂.endFunction line (-1)
    exact hc₃.paths_balanced

end Body

section Example

/-- `a && ((b && 1) == (b && 2))`, for the parameters `a` and `b` -/
def andExp : Exp :=
  let and (first second : Exp) : Exp := .seq first (.logical false second)
  let local_ (pos : ℕ) : Exp := .pushTarget (some pos)
  let literal (target value : ℤ) : Exp :=
    .seq (.pushTarget none) (.instr .LOADINT rfl target value 0 0)
  let eq : Exp := .seq .popTarget (.seq .popTarget (.seq (.pushTarget none)
    (.instr .EQ rfl 4 5 4 0)))
  and (local_ 1) (.seq (and (local_ 2) (literal 5 1)) (.seq (and (local_ 2) (literal 6 2)) eq))

/-- `function f(a, b) { try { for(; b; a && ((b && 1) == (b && 2))) {} } catch(e) {} }` -/
def andFunction : Body :=
  let block (s : Stmt) : Stmt := .mk 1 (.block (.cons s .nil))
  let loop : Form :=
    .for ⟨0, .nil⟩ (some ⟨1, .pushTarget (some 2)⟩) ⟨2, .seq andExp .popTarget⟩ (.mk 1 (.block .nil))
  .function 3 (block (.mk 1 (.tryCatch (block (.mk 1 loop)) (.mk 1 (.block .nil)))))

/-- The code of `andFunction`: the first `AND` was emitted with two instructions more behind it. -/
def andCode : List SQInstruction :=
  let ins (source : Option ℕ) (op : SQOpcode) (a0 a1 a2 : ℤ) : SQInstruction :=
    .ofArgs source op a0 a1 a2 0
  [ins none .PUSHTRAP 3 14 0, ins (some 1) .JZ 2 11 0, ins (some 2) .AND 3 11 1,
    ins (some 2) .MOVE 3 1 0, ins (some 2) .AND 4 3 2, ins (some 2) .MOVE 4 2 0,
    ins (some 2) .LOADINT 4 1 0, ins (some 2) .AND 5 3 2, ins (some 2) .MOVE 5 2 0,
    ins (some 2) .LOADINT 5 2 0, ins (some 2) .EQ 4 5 4, ins (some 2) .MOVE 3 4 0,
    ins none .JMP 0 (-12) 0, ins none .POPTRAP 1 0 0, ins none .JMP 0 0 0, ins none .RETURN 0xFF 0 0]

private theorem compile_andFunction :
    (andFunction.compile true false 1).toOption.map (·.instructions) = some andCode := by
  decide +kernel

/-- Where the increment is added again it is shorter, and its first jump goes too far: it leaves
the `try` without popping the trap. -/
theorem andFunction_not_balanced :
    ∃ fs, andFunction.compile true false 1 = .ok fs ∧ andFunction.tryDepth = 1 ∧
      ¬ Balanced fs.instructions fs.notes := by
  have hcode := compile_andFunction
  cases hok : andFunction.compile true false 1 with
  | error e =>
    rw [hok] at hcode
    cases hcode
  | ok fs =>
    rw [hok] at hcode
    have hcode : fs.instructions = andCode := Option.some.inj hcode
    refine ⟨fs, rfl, rfl, fun h => ?_⟩
    rw [hcode] at h
    have hpush : Control.Reachable andCode _ :=
      Control.Reachable.start.step (Control.Step.pushTrap rfl rfl)
    have htest := hpush.step (Control.Step.pass rfl (by
      simp [SQOpcode.Passes, SQInstruction.ofArgs]))
    have hand := htest.step (Control.Step.branch rfl (by
      simp [SQOpcode.Branches, SQInstruction.ofArgs]))
    have hjmp := hand.step (Control.Step.branch rfl (by
      simp [SQOpcode.Branches, SQInstruction.ofArgs]))
    cases h.return_ _ _ hjmp rfl rfl

/-- `function f(a, b) { try { for(; b; a && !b) if(a) break; } catch(e) {} }` -/
def notFunction : Body :=
  let block (s : Stmt) : Stmt := .mk 1 (.block (.cons s .nil))
  let not_ : Exp := .seq (.pushTarget (some 2)) (.seq .popTarget (.seq (.pushTarget none)
    (.instr .NOT rfl 4 2 0 0)))
  let andNot : Exp := .seq (.pushTarget (some 1)) (.logical false not_)
  let leave : Stmt := .mk 1 (.ifThen ⟨3, .pushTarget (some 1)⟩ (.mk 1 .break))
  let loop : Form :=
    .for ⟨0, .nil⟩ (some ⟨1, .pushTarget (some 2)⟩) ⟨2, .seq andNot .popTarget⟩ leave
  .function 3 (block (.mk 1 (.tryCatch (block (.mk 1 loop)) (.mk 1 (.block .nil)))))

/-- The jump over `!b` in the increment is as long where the increment is added again. -/
theorem notFunction_balanced :
    ∃ fs, notFunction.compile true false 1 = .ok fs ∧ notFunction.tryDepth = 1 ∧
      Balanced fs.instructions fs.notes := by
  have hkept : (notFunction.compile true false 1).toOption.map
      (fun fs => decide (∀ note ∈ fs.notes, note.Kept)) = some true := by decide +kernel
  cases hok : notFunction.compile true false 1 with
  | error e =>
    rw [hok] at hkept
    cases hkept
  | ok fs =>
    rw [hok] at hkept
    exact ⟨fs, rfl, rfl,
      notFunction.balanced hok (by decide) (of_decide_eq_true (Option.some.inj hkept))⟩

end Example

end Squirt.SQCompiler
