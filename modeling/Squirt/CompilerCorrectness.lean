import Squirt.CompiledBranches

/-!
# Compiled expressions evaluate

The code of an expression leaves its value in the target of the expression and changes the world as
the expression does, or it raises the same error. The temporaries in use are not changed. The code
is the one that the optimizer leaves, or the one without it.
-/

namespace Squirt.SQCompiler

open CodeBlocks

section Compilation

variable {V E G : Type} {ops : Operations V E G} {base : List SQLocalVarInfo} {source : ℕ}

mutual

theorem Expression.compiles (hbase : 0 < base.length) :
    ∀ e : Expression, e.Compiles ops base source
  | .leaf l => compiles_leaf l
  | .var _ => compiles_var
  | .member o k => compiles_member hbase (o.compiles hbase) (k.compiles hbase)
  | .unary op e => compiles_unary op (e.compiles hbase)
  | .binary op a b => compiles_binary op (a.compiles hbase) (b.compiles hbase)
  | .and a b => compiles_and (a.compiles hbase) (b.compiles hbase)
  | .or a b => compiles_or (a.compiles hbase) (b.compiles hbase)
  | .conditional c a b =>
    compiles_conditional hbase (c.compiles hbase) (a.compiles hbase) (b.compiles hbase)
  | .comma a b => compiles_comma (a.compiles hbase) (b.compiles hbase)
  | .assign _ e => compiles_assign (e.compiles hbase)
  | .assignOuter _ e => compiles_assignOuter (e.compiles hbase)
  | .assignMember o k e =>
    compiles_assignMember hbase (o.compiles hbase) (k.compiles hbase) (e.compiles hbase)
  | .newSlot o k e =>
    compiles_newSlot hbase (o.compiles hbase) (k.compiles hbase) (e.compiles hbase)
  | .compound op _ e => compiles_compound op (e.compiles hbase)
  | .compoundMember op o k e =>
    compiles_compoundMember op hbase (o.compiles hbase) (k.compiles hbase) (e.compiles hbase)
  | .inc minus post _ => compiles_inc minus post
  | .incOuter minus post _ => compiles_incOuter minus post
  | .incMember minus post o k =>
    compiles_incMember minus post hbase (o.compiles hbase) (k.compiles hbase)
  | .delete o k => compiles_delete hbase (o.compiles hbase) (k.compiles hbase)
  | .array elements => compiles_array (elements.elementsCompile hbase)
  | .call f args => compiles_call hbase (f.compiles hbase) (args.argsCompile hbase)
  | .callMember o k args =>
    compiles_callMember hbase (o.compiles hbase) (k.compiles hbase) (args.argsCompile hbase)

theorem Expressions.elementsCompile (hbase : 0 < base.length) :
    ∀ es : Expressions, es.ElementsCompile ops base source
  | .nil => elementsCompile_nil
  | .cons e es => elementsCompile_cons (e.compiles hbase) (es.elementsCompile hbase)

theorem Expressions.argsCompile (hbase : 0 < base.length) :
    ∀ es : Expressions, es.ArgsCompile ops base source
  | .nil => argsCompile_nil
  | .cons e es => argsCompile_cons (e.compiles hbase) (es.argsCompile hbase)

end

end Compilation

/-- Executing the code that is compiled for an expression evaluates the expression, up to its value
or to the error and the variables at it. The variables are in the registers of `base`, the first of
which is `this`, and `k` temporaries are in use. Nothing may be merged with the code before, as
after `SnoozeOpt`. -/
theorem compiled_expression_evaluates {V E G : Type} (ops : Operations V E G) (source : ℕ)
    (e : Expression) {base : List SQLocalVarInfo} {k : ℕ} {fs : SQFuncState}
    (hvlocals : fs.vlocals = base ++ List.replicate k ⟨false, false⟩) (hbase : 0 < base.length)
    (hroom : base.length + k + e.depth ≤ 128) (hfits : e.Fits (Named base) .other)
    (hlast : fs.Merging → ∀ pi, fs.instructions.getLast? = some pi → pi.op ∉ mergeable)
    (m : Registers V G) :
    let fs' := e.compile source fs
    let code := fs'.instructions
    fs.instructions <+: code ∧ fs'.targetstack.tail = fs.targetstack ∧
    Meets (e.eval ops m.world)
      (fun p => ∃ m' : Registers V G,
        Comes (execute ops base.length) code fs.instructions.length code.length
          fs.instructions.length m (.ok (code.length, m')) ∧
        m'.world = p.2 ∧ m'.reg base.length fs'.topTarget = e.operand p.1 p.2 ∧
        ∀ r < base.length + k, m'.temps r = m.temps r)
      fun x => Comes (execute ops base.length) code fs.instructions.length code.length
        fs.instructions.length m (.error x) := by
  dsimp only
  have hstart : Computes ops base fs.instructions
      (Contains fun (y t : ℕ → V) => ∀ r < base.length + k, t r = y r)
      (fun (y t : ℕ → V) => ∀ r < base.length + k, t r = y r)
      (Except.ok (ε := E × World V G)) .other k fs.targetstack fs := Computes.start ⟨hvlocals, rfl⟩ hlast
  have hbelow : Below (base.length + k) fun (y t : ℕ → V) => ∀ r < base.length + k, t r = y r :=
    fun y t t' ht hy r hr => (ht r hr).symm.trans (hy r hr)
  have hcompiles : e.Compiles ops base source := e.compiles hbase
  have hcompiled := (hcompiles hfits hstart hbelow hroom).1
  have hruns := hcompiled.emitted.implements (m.temps, m.world) m ⟨rfl, fun _ _ => rfl⟩
  refine ⟨hcompiled.emitted.isPrefix, ?_, ?_⟩
  · rw [hcompiled.allocated.targetstack]
    rfl
  · have hrun : ((Except.ok (m.temps, m.world) : Except (E × World V G) ((ℕ → V) × World V G)) >>=
        e.run ops) = (e.eval ops m.world).map fun q => ((m.temps, q.1), q.2) := rfl
    rw [hrun] at hruns
    rw [hcompiled.allocated.topTarget]
    cases heval : e.eval ops m.world with
    | error x =>
      rw [heval] at hruns
      exact hruns
    | ok p =>
      rw [heval] at hruns
      obtain ⟨m', hholds, hcomes⟩ := hruns
      refine ⟨m', hcomes, hholds.1, ?_, hholds.2.1⟩
      exact hholds.reg (fun pos hpos => (hfits.named pos hpos).lt) (Nat.le_add_right _ _)

/-- Integers, with additions and comparisons only -/
def integerOperations : Operations ℤ Unit Unit where
  literal _ := 0
  integer n := n
  float _ := 0
  bool b := if b then 1 else 0
  null := 0
  isFalse v := v = 0
  apply op xs world :=
    match op, xs with
    | .binary .add, [a, b] => .ok (a + b, world)
    | .binary (.cmp _), [a, b] => .ok (if a < b then 1 else 0, world)
    | _, _ => .error ((), world)
  left _ _ := 0

/-- `this` and one more variable, with the optimizer at work -/
def twoVariables : SQFuncState where
  fusion := true
  lineinfo := false
  parent := false
  instructions := []
  optimization := true
  lastline := 0
  returnexp := -1
  vlocals := [⟨true, false⟩, ⟨true, false⟩]
  targetstack := []
  outers := 0
  scope := 0
  traps := 0
  breaktargets := []
  continuetargets := []
  unresolvedbreaks := []
  unresolvedcontinues := []
  notes := []

/-- `x = x < 5 ? x + 2 : 0` -/
def countOn : Expression :=
  .assign 1 (.conditional (.binary (.cmp 3) (.var 1) (.leaf (.integer 5)))
    (.binary .add (.var 1) (.leaf (.integer 2))) (.leaf (.integer 0)))

theorem compiled_expression_evaluates_countOn : ∃ m' : Registers ℤ Unit,
    Comes (execute integerOperations 2) (countOn.compile 0 twoVariables).instructions 0
      (countOn.compile 0 twoVariables).instructions.length 0 ⟨(fun _ => 3, ()), fun _ => 0⟩
      (.ok ((countOn.compile 0 twoVariables).instructions.length, m')) ∧ m'.world.1 1 = 5 := by
  have hnamed : Named twoVariables.vlocals 1 := ⟨⟨true, false⟩, rfl, rfl⟩
  have hfits : countOn.Fits (Named twoVariables.vlocals) .other := by
    refine ⟨hnamed, ⟨⟨⟨BinaryOperator.noConfusion, hnamed, trivial⟩, ?_⟩,
      ⟨⟨BinaryOperator.noConfusion, hnamed, trivial⟩, ?_⟩, trivial, ?_⟩, ?_⟩ <;>
      intro pos hpos <;> cases hpos
  have hvlocals : twoVariables.vlocals =
      twoVariables.vlocals ++ List.replicate 0 ⟨false, false⟩ := rfl
  have hlast : twoVariables.Merging → ∀ pi, twoVariables.instructions.getLast? = some pi →
      pi.op ∉ mergeable := by
    intro _ pi hpi
    cases hpi
  have hruns := (compiled_expression_evaluates integerOperations 0 countOn hvlocals (by decide)
    (by decide) hfits hlast ⟨(fun _ => 3, ()), fun _ => 0⟩).2.2
  obtain ⟨m', hcomes, hworld, _⟩ := hruns
  exact ⟨m', hcomes, congrArg (fun w => w.1 1) hworld⟩

end Squirt.SQCompiler
