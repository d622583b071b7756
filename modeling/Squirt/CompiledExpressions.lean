import Squirt.CompiledOperators

/-!
# The code of expressions without branches

The code of an expression does what the expression means, if the code of its operands does.
-/

namespace Squirt.SQCompiler

open CodeBlocks

section Runs

variable {V E G : Type} (ops : Operations V E G) {α : Type}

/-- The value of an expression beside what there is already -/
def Expression.run (e : Expression) (p : α × World V G) :
    Except (E × World V G) ((α × V) × World V G) :=
  (e.eval ops p.2).map fun q => ((p.1, q.1), q.2)

variable {ops}

theorem run_one {e a : Expression} {f : V → World V G → Except (E × World V G) (V × World V G)}
    (heval : ∀ w, e.eval ops w = a.eval ops w >>= fun p => f p.1 p.2)
    (r : Except (E × World V G) (α × World V G)) :
    ((r >>= a.run ops) >>= fun p => (f p.1.2 p.2).map fun q => ((p.1.1, q.1), q.2)) =
      r >>= e.run ops := by
  cases r with
  | error x => rfl
  | ok p =>
    simp only [Expression.run, heval, bind, Except.bind]
    cases a.eval ops p.2 <;> rfl

theorem run_two {e a b : Expression}
    {f : V → V → World V G → Except (E × World V G) (V × World V G)}
    (heval : ∀ w, e.eval ops w =
      a.eval ops w >>= fun p => b.eval ops p.2 >>= fun q => f p.1 q.1 q.2)
    (r : Except (E × World V G) (α × World V G)) :
    (((r >>= a.run ops) >>= b.run ops) >>= fun p =>
      (f p.1.1.2 p.1.2 p.2).map fun q => ((p.1.1.1, q.1), q.2)) = r >>= e.run ops := by
  cases r with
  | error x => rfl
  | ok p =>
    simp only [Expression.run, heval, bind, Except.bind]
    cases a.eval ops p.2 with
    | error x => rfl
    | ok q =>
      simp only [Except.map]
      cases b.eval ops q.2 <;> rfl

theorem run_three {e a b c : Expression}
    {f : V → V → V → World V G → Except (E × World V G) (V × World V G)}
    (heval : ∀ w, e.eval ops w = a.eval ops w >>= fun p => b.eval ops p.2 >>= fun q =>
      c.eval ops q.2 >>= fun s => f p.1 q.1 s.1 s.2)
    (r : Except (E × World V G) (α × World V G)) :
    ((((r >>= a.run ops) >>= b.run ops) >>= c.run ops) >>= fun p =>
      (f p.1.1.1.2 p.1.1.2 p.1.2 p.2).map fun q => ((p.1.1.1.1, q.1), q.2)) =
        r >>= e.run ops := by
  cases r with
  | error x => rfl
  | ok p =>
    simp only [Expression.run, heval, bind, Except.bind]
    cases a.eval ops p.2 with
    | error x => rfl
    | ok q =>
      simp only [Except.map]
      cases b.eval ops q.2 with
      | error x => rfl
      | ok s =>
        dsimp only
        cases c.eval ops s.2 <;> rfl

end Runs

/-- A comparison that comes last is of the value that is in the temporary `n`. -/
def SQFuncState.Compares (o : Option ℕ) (n : ℕ) (fs : SQFuncState) : Prop :=
  o = none → fs.Merging → ∀ pi, fs.instructions.getLast? = some pi → pi.op = .CMP →
    pi.arg0.toNat = n

theorem SQFuncState.Ends.compares {fs : SQFuncState} {nlocals n : ℕ} {τ : Tail} {o : Option ℕ}
    (h : fs.Ends nlocals τ) (hτ : τ ≠ .compare) : fs.Compares o n :=
  fun _ hm pi hpi hop => absurd ((h hm pi hpi).1 hop).1 hτ

theorem Expression.Fits.named {named : ℕ → Prop} : ∀ {e : Expression} {τ : Tail},
    e.Fits named τ → ∀ pos, e.localVar = some pos → named pos := by
  intro e
  fun_induction Expression.localVar e with
  | case1 pos =>
    rintro τ h _ ⟨⟩
    exact h
  | case2 pos e =>
    rintro τ h _ ⟨⟩
    exact h.1
  | case3 op pos e =>
    rintro τ h _ ⟨⟩
    exact h.2.1.1
  | case4 minus post =>
    rintro τ h _ ⟨⟩
  | case5 minus post pos =>
    rintro τ h _ ⟨⟩
    exact h
  | case6 a b ih =>
    intro τ h
    exact ih h.2
  | case7 =>
    rintro τ h _ ⟨⟩

section Compilation

variable {V E G : Type} (ops : Operations V E G) (base : List SQLocalVarInfo) (source : ℕ)

/-- After the code of the expression its value is in a variable or in the next temporary. -/
def Expression.Compiles (e : Expression) : Prop :=
  ∀ ⦃σ α : Type⦄ ⦃pre : List SQInstruction⦄ ⦃A : σ → Registers V G → Prop⦄
    ⦃B : α → (ℕ → V) → Prop⦄ ⦃D : σ → Except (E × World V G) (α × World V G)⦄ ⦃τ : Tail⦄ ⦃n : ℕ⦄
    ⦃ts : List ℕ⦄ ⦃fs : SQFuncState⦄, e.Fits (Named base) τ →
    Computes ops base pre A B D τ n ts fs → Below (base.length + n) B →
    base.length + n + e.depth ≤ 128 →
    Computes ops base pre A (After e.localVar (base.length + n) B)
      (fun x => D x >>= e.run ops) (e.tail τ) (n + operandTemps e.localVar)
      (e.localVar.getD (base.length + n) :: ts) (e.compile source fs) ∧
    (e.compile source fs).Compares e.localVar (base.length + n)

variable {ops base source} {σ α : Type} {pre : List SQInstruction}
  {A : σ → Registers V G → Prop} {B : α → (ℕ → V) → Prop}
  {D : σ → Except (E × World V G) (α × World V G)} {τ : Tail} {n pos : ℕ} {ts : List ℕ}
  {fs : SQFuncState} {a b c o k e : Expression} {oa ob oc : Option ℕ}

theorem Expression.Compiles.intro {D' : σ → Except (E × World V G) ((α × V) × World V G)}
    (hnone : e.localVar = none) (hother : e.tail τ = .other)
    (h : Computes ops base pre A (After none (base.length + n) B) D' .other (n + 1)
      ((base.length + n) :: ts) (e.compile source fs)) (hD : ∀ x, D' x = D x >>= e.run ops) :
    Computes ops base pre A (After e.localVar (base.length + n) B)
      (fun x => D x >>= e.run ops) (e.tail τ) (n + operandTemps e.localVar)
      (e.localVar.getD (base.length + n) :: ts) (e.compile source fs) ∧
    (e.compile source fs).Compares e.localVar (base.length + n) := by
  rw [hnone, hother]
  exact ⟨h.congr hD, h.ends.compares Tail.noConfusion⟩

theorem below_after (oa : Option ℕ) (h : Below (base.length + n) B) :
    Below (base.length + (n + operandTemps oa)) (After oa (base.length + n) B) := by
  rw [← Nat.add_assoc]
  exact h.after

namespace Expression.Compiles

theorem both (ha : a.Compiles ops base source) (hb : b.Compiles ops base source)
    (hfa : a.Fits (Named base) τ) (hfb : b.Fits (Named base) (a.tail τ))
    (h : Computes ops base pre A B D τ n ts fs) (hB : Below (base.length + n) B)
    (hlt : base.length + n + max a.depth (max (a.temps + b.depth) 1) ≤ 128) :
    Computes ops base pre A (After b.localVar (base.length + (n + operandTemps a.localVar))
        (After a.localVar (base.length + n) B))
      (fun x => (D x >>= a.run ops) >>= b.run ops) (b.tail (a.tail τ))
      (n + operandTemps a.localVar + operandTemps b.localVar)
      (b.localVar.getD (base.length + (n + operandTemps a.localVar)) ::
        a.localVar.getD (base.length + n) :: ts)
      (b.compile source (a.compile source fs)) := by
  have htemps : a.temps = operandTemps a.localVar := rfl
  have hfirst := (ha hfa h hB (by omega)).1
  exact (hb hfb hfirst (below_after _ hB) (by omega)).1

end Expression.Compiles

theorem operand_ge {j : ℕ} (hb : ∀ pos, ob = some pos → Named base pos)
    (hle : base.length ≤ ob.getD (base.length + (n + j))) :
    base.length + n ≤ ob.getD (base.length + (n + j)) := by
  rw [operand_temp hb hle, Option.getD_none]
  omega

theorem operands_ne (ha : ∀ pos, oa = some pos → Named base pos)
    (hb : ∀ pos, ob = some pos → Named base pos)
    (hle : base.length ≤ ob.getD (base.length + (n + operandTemps oa))) :
    oa.getD (base.length + n) ≠ ob.getD (base.length + (n + operandTemps oa)) := by
  rw [operand_temp hb hle, Option.getD_none]
  cases oa with
  | none => simp [operandTemps]
  | some pos =>
    have hlt := (ha pos rfl).lt
    simp only [Option.getD_some]
    omega

/-! ### Operators -/

/-- `Emit2ArgsOP` after the code of its operands -/
theorem compiles_2ArgsOP (op : SQOpcode) (operation : Operation) {p3 : ℤ} (vals : V → V → List V)
    (hbase : 0 < base.length) (ho : o.Compiles ops base source) (hk : k.Compiles ops base source)
    (hcode : ∀ fs, e.compile source fs =
      (k.compile source (o.compile source fs)).emit2ArgsOP source op p3)
    (heval : ∀ w, e.eval ops w = o.eval ops w >>= fun p => k.eval ops p.2 >>= fun q =>
      ops.apply operation (vals (o.operand p.1 q.2) (k.operand q.1 q.2)) q.2)
    (hnone : e.localVar = none) (hother : ∀ τ, e.tail τ = .other)
    (hfits : ∀ τ, e.Fits (Named base) τ → o.Fits (Named base) τ ∧ k.Fits (Named base) (o.tail τ))
    (hdepth : e.depth = max o.depth (max (o.temps + k.depth) 1))
    (hcomp : ∀ trg ro rk : ℕ, rk < 256 → (ro = 0 ↔ o.localVar = some 0) →
      ∃ xs, (SQInstruction.ofArgs (some source) op trg ro rk p3).computation =
        some (.apply operation xs) ∧ ∀ m : Registers V G, xs.map (·.value ops base.length m) =
          vals (m.reg base.length ro) (m.reg base.length rk))
    (hop : op = .GET ∨ op ∈ unmerged) (hcmp : op ≠ .CMP) : e.Compiles ops base source := by
  intro σ α pre A B D τ n ts fs hfit h hB hlt
  rw [hdepth] at hlt
  have htemps : o.temps = operandTemps o.localVar := rfl
  have hboth := ho.both hk (hfits τ hfit).1 (hfits τ hfit).2 h hB hlt
  have hko := (hfits τ hfit).1.named
  have hkk := (hfits τ hfit).2.named
  have hro : o.localVar.getD (base.length + n) < 256 := operand_lt hko (by omega)
  have hrk : k.localVar.getD (base.length + (n + operandTemps o.localVar)) < 256 := by
    have hle : operandTemps o.localVar ≤ 1 := by
      unfold operandTemps
      split_ifs <;> omega
    exact operand_lt hkk (by omega)
  obtain ⟨xs, hxs, hvals⟩ := hcomp (base.length + n) _ _ hrk (operand_eq_zero hko hbase)
  apply Expression.Compiles.intro hnone (hother τ)
  · rw [hcode, emit2ArgsOP_eq hboth.allocated.targetstack]
    apply hboth.two vals hko hkk (by omega) hB hxs hvals _ fun hop => absurd hop hcmp
    intro fs' hends
    rcases hop with rfl | hop
    · have harg2 : (SQInstruction.ofArgs (some source) .GET ((base.length + n : ℕ) : ℤ)
          (o.localVar.getD (base.length + n) : ℤ)
          (k.localVar.getD (base.length + (n + operandTemps o.localVar)) : ℤ) p3).arg2.toNat =
            k.localVar.getD (base.length + (n + operandTemps o.localVar)) := toNat_byte hrk
      have harg0 : (SQInstruction.ofArgs (some source) .GET ((base.length + n : ℕ) : ℤ)
          (o.localVar.getD (base.length + n) : ℤ)
          (k.localVar.getD (base.length + (n + operandTemps o.localVar)) : ℤ) p3).arg0.toNat =
            base.length + n := toNat_byte (by omega)
      apply merges_get rfl hends rfl hro
      · rw [harg2]
        exact operands_ne hko hkk
      · rw [harg2, harg0]
        exact fun hle => hB.dead (operand_ge hkk hle)
    · exact merges_unmerged hop
  · intro x
    exact run_two (f := fun vo vk w => ops.apply operation (vals (o.operand vo w) (k.operand vk w)) w)
      heval (D x)

theorem compiles_member (hbase : 0 < base.length) (ho : o.Compiles ops base source)
    (hk : k.Compiles ops base source) :
    (Expression.member o k).Compiles ops base source := by
  apply compiles_2ArgsOP (e := .member o k) .GET (.get o.isThis) (fun vo vk => [vo, vk]) hbase ho
    hk (fun _ => rfl) (fun _ => rfl) rfl (fun _ => rfl) (fun _ h => h) rfl _ (.inl rfl)
    SQOpcode.noConfusion
  intro trg ro rk hrk hzero
  refine ⟨[.reg ro, .reg rk], ?_, fun m => rfl⟩
  simp [SQInstruction.computation, SQInstruction.ofArgs, Nat.mod_eq_of_lt hrk, Expression.isThis,
    hzero]

theorem compiles_delete (hbase : 0 < base.length) (ho : o.Compiles ops base source)
    (hk : k.Compiles ops base source) :
    (Expression.delete o k).Compiles ops base source := by
  apply compiles_2ArgsOP (e := .delete o k) .DELETE .delete (fun vo vk => [vo, vk]) hbase ho hk
    (fun _ => rfl) (fun _ => rfl) rfl (fun _ => rfl) (fun _ h => h) rfl _ (.inr (by decide))
    SQOpcode.noConfusion
  intro trg ro rk hrk hzero
  refine ⟨[.reg ro, .reg rk], ?_, fun m => rfl⟩
  simp [SQInstruction.computation, SQInstruction.ofArgs, Nat.mod_eq_of_lt hrk]

private theorem bmod_incDiff (minus : Bool) : (incDiff minus).bmod 256 = incDiff minus := by
  cases minus <;> rfl

theorem compiles_incMember (minus post : Bool) (hbase : 0 < base.length)
    (ho : o.Compiles ops base source) (hk : k.Compiles ops base source) :
    (Expression.incMember minus post o k).Compiles ops base source := by
  apply compiles_2ArgsOP (e := .incMember minus post o k) (if post then .PINC else .INC)
    (.derefInc 43 post o.isThis) (fun vo vk => [vo, vk, ops.integer (incDiff minus)]) hbase ho hk
    (fun _ => rfl) (fun _ => rfl) rfl (fun _ => rfl) (fun _ h => h) rfl
  · intro trg ro rk hrk hzero
    refine ⟨[.reg ro, .reg rk, .integer (incDiff minus)], ?_, fun m => rfl⟩
    cases post <;> simp [SQInstruction.computation, SQInstruction.ofArgs, Nat.mod_eq_of_lt hrk,
      Expression.isThis, hzero, bmod_incDiff]
  · right
    cases post <;> decide
  · cases post <;> decide

theorem compiles_binary (op : BinaryOperator) (ha : a.Compiles ops base source)
    (hb : b.Compiles ops base source) : (Expression.binary op a b).Compiles ops base source := by
  intro σ α pre A B D τ n ts fs hfit h hB hlt
  simp only [Expression.depth] at hlt
  have htemps : a.temps = operandTemps a.localVar := rfl
  obtain ⟨hmod, hfa, hfb⟩ := hfit
  have hboth := ha.both hb hfa hfb h hB hlt
  have hna := hfa.named
  have hnb := hfb.named
  have hra : a.localVar.getD (base.length + n) < 256 := operand_lt hna (by omega)
  have hrb : b.localVar.getD (base.length + (n + operandTemps a.localVar)) < 256 := by
    have hle : operandTemps a.localVar ≤ 1 := by
      unfold operandTemps
      split_ifs <;> omega
    exact operand_lt hnb (by omega)
  have hcode : (Expression.binary op a b).compile source fs = _ :=
    binExp_eq hboth.allocated.targetstack
  have hcomp : (SQInstruction.ofArgs (some source) op.opcode ((base.length + n : ℕ) : ℤ)
      (b.localVar.getD (base.length + (n + operandTemps a.localVar)) : ℤ)
      (a.localVar.getD (base.length + n) : ℤ) op.op3).computation =
        some (.apply (.binary op) [.reg (a.localVar.getD (base.length + n)),
          .reg (b.localVar.getD (base.length + (n + operandTemps a.localVar)))]) := by
    cases op
    case mod => exact absurd rfl hmod
    all_goals simp [SQInstruction.computation, SQInstruction.ofArgs, SQInstruction.binary,
      SQInstruction.condLiteral, BinaryOperator.opcode, BinaryOperator.op3, Nat.mod_eq_of_lt hra]
  have hmerges : ∀ fs' : SQFuncState, fs'.Ends base.length (b.tail (a.tail τ)) →
      fs'.Merges ops base.length (.ofArgs (some source) op.opcode ((base.length + n : ℕ) : ℤ)
        (b.localVar.getD (base.length + (n + operandTemps a.localVar)) : ℤ)
        (a.localVar.getD (base.length + n) : ℤ) op.op3)
        (Contains (G := G) (After none (base.length + n) B)) := by
    intro fs' hends
    have harg2 : (SQInstruction.ofArgs (some source) op.opcode ((base.length + n : ℕ) : ℤ)
        (b.localVar.getD (base.length + (n + operandTemps a.localVar)) : ℤ)
        (a.localVar.getD (base.length + n) : ℤ) op.op3).arg2.toNat =
          a.localVar.getD (base.length + n) := toNat_byte hra
    have harg0 : (SQInstruction.ofArgs (some source) op.opcode ((base.length + n : ℕ) : ℤ)
        (b.localVar.getD (base.length + (n + operandTemps a.localVar)) : ℤ)
        (a.localVar.getD (base.length + n) : ℤ) op.op3).arg0.toNat = base.length + n :=
      toNat_byte (by omega)
    have hequality : (op = .eq ∨ op = .ne) ∨ op.opcode ∈ unmerged := by
      cases op <;> simp [BinaryOperator.opcode, unmerged]
    rcases hequality with heq | hop
    · have hkind : op.opcode = .EQ ∧ op = .eq ∨ op.opcode = .NE ∧ op = .ne := by
        rcases heq with rfl | rfl
        · exact .inl ⟨rfl, rfl⟩
        · exact .inr ⟨rfl, rfl⟩
      apply merges_equality hkind hends _ rfl
      · rw [harg2]
        exact operands_ne hna hnb
      · rw [harg0]
        exact fun hle => hB.dead (operand_ge hnb hle)
      · rcases heq with rfl | rfl <;> rfl
    · exact merges_unmerged hop
  have hcmp : op.opcode = .CMP → (Expression.binary op a b).tail τ = .compare ∧
      0 ≤ (b.localVar.getD (base.length + (n + operandTemps a.localVar)) : ℤ) := by
    intro hop
    refine ⟨?_, Int.natCast_nonneg _⟩
    cases op <;> first | rfl | cases hop
  have hafter := hboth.two (fun va vb => [va, vb]) hna hnb (by omega) hB hcomp
    (fun m => rfl) hmerges hcmp
  rw [← hcode] at hafter
  refine ⟨hafter.congr fun x => ?_, ?_⟩
  · exact run_two (f := fun va vb w => ops.apply (.binary op) [a.operand va w, b.operand vb w] w)
      (fun w => rfl) (D x)
  · by_cases hop : op.opcode = .CMP
    · intro _ _ pi hpi _
      have hun : op.opcode ∈ unmerged := by
        rw [hop]
        decide
      have hpop := ((hboth.popTarget hnb).popTarget hna).allocated
      rw [hcode, instructions_emitPush hpop hun, List.getLast?_concat] at hpi
      cases hpi
      exact toNat_byte (by omega)
    · apply hafter.ends.compares
      cases op <;> first | exact Tail.noConfusion | exact absurd rfl hop

/-! ### What needs no operand -/

theorem compiles_var : (Expression.var pos).Compiles ops base source := by
  intro σ α pre A B D τ n ts fs hfit h hB hlt
  have hpush := h.pushLocal pos
  constructor
  · have hemitted := hpush.emitted.map (C := Contains (After (some pos) (base.length + n) B))
      (fun p => ((p.1, p.2.1 pos), p.2)) fun p m hp =>
        ⟨hp.1, hp.2, fun hnone => absurd hnone (Option.some_ne_none pos)⟩
    refine ⟨hpush.allocated, hemitted.congr fun x => ?_, hpush.ends⟩
    cases D x <;> rfl
  · exact fun hnone => absurd hnone (Option.some_ne_none pos)

private theorem executes_loadNull {trg N : ℕ} (htrg : trg < 256) :
    Executes ops N (.ofArgs (some source) .LOADNULLS (trg : ℤ) 1 0 0) fun m =>
      .ok (m.setReg N trg ops.null) := by
  intro m
  simp only [execute, SQInstruction.computation, SQInstruction.ofArgs, toNat_byte htrg]
  rfl

theorem Leaf.compiled (l : Leaf) (h : Computes ops base pre A B D τ n ts fs)
    (hB : Below (base.length + n) B) (hlt : base.length + n < 256) :
    Computes ops base pre A (After none (base.length + n) B)
      (fun x => D x >>= (Expression.leaf l).run ops) .other (n + 1) ((base.length + n) :: ts)
      (l.compile source fs) := by
  have hstore : ∀ {op : SQOpcode} {operation : Operation} {a1 : ℤ}, op ∈ unmerged → op ≠ .CMP →
      (SQInstruction.ofArgs (some source) op ((base.length + n : ℕ) : ℤ) a1 0 0).computation =
        some (.apply operation []) →
      Computes ops base pre A (After none (base.length + n) B)
        (fun x => D x >>= fun p => (ops.apply operation [] p.2).map fun q => ((p.1, q.1), q.2))
        .other (n + 1) ((base.length + n) :: ts) (fs.emitPush source op a1 0 0) :=
    fun hop hcmp hcomp => h.store id _ hlt hB hcomp (fun _ _ hy => hy) (fun _ _ _ => rfl)
      (merges_unmerged hop) fun hop => absurd hop hcmp
  have hcopy : ∀ {op : SQOpcode} {x : Operand} {a1 : ℤ} {v : V}, op = .LOAD ∧ 0 ≤ a1 ∨ op ∈ unmerged →
      (SQInstruction.ofArgs (some source) op ((base.length + n : ℕ) : ℤ) a1 0 0).computation =
        some (.copy x) → (∀ m, x.value ops base.length m = v) →
      Computes ops base pre A (After none (base.length + n) B)
        (fun x => D x >>= fun p => .ok ((p.1, v), p.2))
        .other (n + 1) ((base.length + n) :: ts) (fs.emitPush source op a1 0 0) := by
    intro op x a1 v hop hcomp hval
    apply h.copy id hlt hB hcomp (fun _ _ hy => hy) (fun _ m _ => hval m)
    rcases hop with ⟨rfl, hpos⟩ | hop
    · exact merges_load (n := a1.toNat) rfl (Int.toNat_of_nonneg hpos).symm
    · exact merges_unmerged hop
  cases l with
  | literal k => exact hcopy (.inl ⟨rfl, Int.natCast_nonneg k⟩) rfl fun m => rfl
  | integer i => exact hcopy (.inr (by decide)) rfl fun m => rfl
  | float bits => exact hcopy (.inr (by decide)) rfl fun m => rfl
  | bool b =>
    apply hcopy (.inr (by decide)) rfl fun m => ?_
    cases b <;> rfl
  | null =>
    have hi : Does (execute ops base.length)
        (.ofArgs (some source) .LOADNULLS ((base.length + n : ℕ) : ℤ) 1 0 0) (Contains (G := G) B)
        (Contains (After none (base.length + n) B)) fun p => .ok ((p.1, ops.null), p.2) :=
      does_copy (executes_loadNull hlt) fun p m hp => hp.setReg hB (Nat.le_add_right _ _)
    exact h.emitPush hlt hi (merges_loadNulls rfl h.pushTarget.ends rfl) SQOpcode.noConfusion
      (fun _ => Int.one_nonneg) SQOpcode.noConfusion
  | root => exact hstore (by decide) SQOpcode.noConfusion rfl
  | base => exact hstore (by decide) SQOpcode.noConfusion rfl
  | function f => exact hstore (by decide) SQOpcode.noConfusion rfl
  | outer pos => exact hstore (by decide) SQOpcode.noConfusion rfl

theorem compiles_leaf (l : Leaf) : (Expression.leaf l).Compiles ops base source := by
  intro σ α pre A B D τ n ts fs _ h hB hlt
  simp only [Expression.depth] at hlt
  exact Expression.Compiles.intro rfl rfl (l.compiled h hB (by omega)) fun x => rfl

/-! ### One operand -/

theorem compiles_unary (op : UnaryOperator) (he : e.Compiles ops base source) :
    (Expression.unary op e).Compiles ops base source := by
  intro σ α pre A B D τ n ts fs hfit h hB hlt
  simp only [Expression.depth] at hlt
  have hfirst := (he hfit h hB (by omega)).1
  have hfe : e.Fits (Named base) τ := hfit
  have hne := hfe.named
  have hcode : (Expression.unary op e).compile source fs = _ :=
    unaryOP_eq hfirst.allocated.targetstack
  have hun : op.opcode ∈ unmerged := by
    cases op <;> decide
  apply Expression.Compiles.intro rfl rfl
  · rw [hcode]
    apply hfirst.one (.unary op) hne (by omega) hB
    · cases op <;> rfl
    · exact fun fs' _ => merges_unmerged hun
    · intro hop
      cases op <;> cases hop
  · intro x
    exact run_one (f := fun v w => ops.apply (.unary op) [e.operand v w] w) (fun w => rfl) (D x)

theorem compiles_assignOuter (he : e.Compiles ops base source) :
    (Expression.assignOuter pos e).Compiles ops base source := by
  intro σ α pre A B D τ n ts fs hfit h hB hlt
  simp only [Expression.depth] at hlt
  have hfirst := (he hfit h hB (by omega)).1
  have hfe : e.Fits (Named base) τ := hfit
  have hne := hfe.named
  have hre : e.localVar.getD (base.length + n) < 256 := operand_lt hne (by omega)
  have hcode : (Expression.assignOuter pos e).compile source fs =
      (e.compile source fs).popTarget.emitPush source .SETOUTER pos
        (e.localVar.getD (base.length + n)) 0 := by
    rw [Expression.compile, (topTarget_eq hfirst.allocated.targetstack).1]
  have hpop := hfirst.popTarget hne
  have hreg : ∀ (p : (α × V) × World V G) m, Contains (After e.localVar (base.length + n) B) p m →
      m.reg base.length (e.localVar.getD (base.length + n)) = e.operand p.1.2 p.2 :=
    fun p m hp => hp.reg (fun pos hpos => (hne pos hpos).lt) (Nat.le_add_right _ _)
  apply Expression.Compiles.intro rfl rfl
  · rw [hcode]
    apply hpop.again Prod.fst (fun p => [e.operand p.1.2 p.2]) (by omega) hB
      (executes_setOuter (by omega) hre) (fun y t hy => hy.1) _ hreg
      (merges_setOuter rfl) SQOpcode.noConfusion SQOpcode.noConfusion SQOpcode.noConfusion
    intro p m hp
    simp only [List.map_cons, List.map_nil, Operand.value_reg, hreg p m hp]
  · intro x
    exact run_one (f := fun v w => ops.apply (.setOuter pos) [e.operand v w] w >>=
      fun q => .ok (e.operand v q.2, q.2)) (e := .assignOuter pos e) (fun w => rfl) (D x)

theorem compiles_comma (ha : a.Compiles ops base source) (hb : b.Compiles ops base source) :
    (Expression.comma a b).Compiles ops base source := by
  intro σ α pre A B D τ n ts fs hfit h hB hlt
  simp only [Expression.depth] at hlt
  have hfirst := (ha hfit.1 h hB (by omega)).1.popTarget hfit.1.named
  have hforget := hfirst.map (C := B) Prod.fst fun y t hy => hy.1
  have hsecond := hb hfit.2 hforget hB (by omega)
  constructor
  · apply hsecond.1.congr
    intro x
    cases D x with
    | error e => rfl
    | ok p =>
      simp only [Expression.run, Expression.eval, bind, Except.bind]
      cases a.eval ops p.2 <;> rfl
  · exact hsecond.2

theorem executes_move {trg src N : ℕ} (htrg : trg < 256) :
    Executes ops N (.ofArgs (some source) .MOVE (trg : ℤ) src 0 0) fun m =>
      .ok (m.setReg N trg (m.reg N src)) := by
  have hcomp : (SQInstruction.ofArgs (some source) .MOVE (trg : ℤ) src 0 0).computation =
      some (.copy (.reg src)) := rfl
  have hexec : Executes ops N _ _ := executes_copy hcomp
  have harg0 : (SQInstruction.ofArgs (some source) .MOVE (trg : ℤ) src 0 0).arg0.toNat = trg :=
    toNat_byte htrg
  rw [harg0] at hexec
  exact hexec

/-! ### Assignments to local variables -/

theorem compiles_assign (he : e.Compiles ops base source) :
    (Expression.assign pos e).Compiles ops base source := by
  intro σ α pre A B D τ n ts fs hfit h hB hlt
  simp only [Expression.depth] at hlt
  obtain ⟨hpos, hfe, hmoved⟩ := hfit
  have hne := hfe.named
  have hposlt := hpos.lt
  have hre : e.localVar.getD (base.length + n) < 256 := operand_lt hne (by omega)
  have hfirst := (he hfe (h.pushLocal pos) hB hlt).1
  have hpop := hfirst.popTarget hne
  have hcode : (Expression.assign pos e).compile source fs =
      (e.compile source (fs.pushTarget (some pos))).popTarget.addInstruction
        (.ofArgs (some source) .MOVE (pos : ℤ) (e.localVar.getD (base.length + n) : ℤ) 0 0) := by
    rw [Expression.compile, (topTarget_eq hfirst.allocated.targetstack).1,
      hpop.allocated.topTarget]
    rfl
  have harg0 : (SQInstruction.ofArgs (some source) .MOVE (pos : ℤ)
      (e.localVar.getD (base.length + n) : ℤ) 0 0).arg0.toNat = pos := toNat_byte (by omega)
  have hi : Does (execute ops base.length) (.ofArgs (some source) .MOVE (pos : ℤ)
      (e.localVar.getD (base.length + n) : ℤ) 0 0)
      (Contains (After e.localVar (base.length + n) B))
      (Contains (After (some pos) (base.length + n) B)) fun p =>
        .ok ((p.1.1, e.operand p.1.2 p.2), World.assign p.2 pos (e.operand p.1.2 p.2)) := by
    apply does_copy (executes_move (by omega))
    intro p m hp
    rw [hp.reg (fun pos hpos => (hne pos hpos).lt) (Nat.le_add_right _ _)]
    exact hp.outer.assign hposlt
  have hmerges : (e.compile source (fs.pushTarget (some pos))).popTarget.Merges ops base.length
      (.ofArgs (some source) .MOVE (pos : ℤ) (e.localVar.getD (base.length + n) : ℤ) 0 0)
      (Contains (G := G) (After (some pos) (base.length + n) B)) := by
    apply merges_move rfl hpop.ends rfl hre
    · intro hlocal
      right
      cases hvar : e.localVar with
      | none =>
        rw [hvar, Option.getD_none] at hlocal
        omega
      | some pos' => exact hmoved pos' hvar
    · intro hle
      right
      rw [operand_temp hne hle]
      exact (below_after (some pos) hB).blind le_rfl
  have hmove : SQOpcode.MOVE ∉ retargeted := by decide
  have hends : ((e.compile source (fs.pushTarget (some pos))).popTarget.addInstruction
      (.ofArgs (some source) .MOVE (pos : ℤ) (e.localVar.getD (base.length + n) : ℤ) 0 0)).Ends
        base.length .other :=
    hpop.ends.add_plain hmove SQOpcode.noConfusion SQOpcode.noConfusion
  have hcompiled := hpop.add hi hmerges hends
  rw [← hcode] at hcompiled
  refine ⟨hcompiled.congr fun x => ?_, hcompiled.ends.compares Tail.noConfusion⟩
  cases D x with
  | error x => rfl
  | ok p =>
    simp only [Expression.run, Expression.eval, bind, Except.bind]
    cases e.eval ops p.2 <;> rfl

theorem compiles_compound (op : ArithOperator) (he : e.Compiles ops base source) :
    (Expression.compound op pos e).Compiles ops base source := by
  intro σ α pre A B D τ n ts fs hfit h hB hlt
  simp only [Expression.depth] at hlt
  obtain ⟨hmod, ⟨hpos, hzero⟩, hfe⟩ := hfit
  have hne := hfe.named
  have hposlt := hpos.lt
  have hlocal : ∀ pos', some pos = some pos' → Named base pos' := by
    rintro _ ⟨⟩
    exact hpos
  have hfirst := (he hfe (h.pushLocal pos) hB hlt).1
  have hpop := hfirst.popTarget hne
  have hpushed := (hpop.popTarget (o := some pos) hlocal).pushLocal pos
  have hcode : (Expression.compound op pos e).compile source fs =
      ((e.compile source (fs.pushTarget (some pos))).popTarget.popTarget.pushTarget
        (some pos)).addInstruction (.ofArgs (some source) op.operator.opcode (pos : ℤ)
          (e.localVar.getD (base.length + n) : ℤ) (pos : ℤ) 0) := by
    rw [Expression.compile, (topTarget_eq hfirst.allocated.targetstack).1,
      hpop.allocated.topTarget]
    rfl
  have hbyte : (BitVec.ofInt 8 (pos : ℤ)).toNat = pos := toNat_byte (by omega)
  have hun : op.operator.opcode ∈ unmerged := by
    cases op <;> decide
  have hload : op.operator.opcode ∉ constantLoads := by
    cases op <;> decide
  have hcomp : (SQInstruction.ofArgs (some source) op.operator.opcode (pos : ℤ)
      (e.localVar.getD (base.length + n) : ℤ) (pos : ℤ) 0).computation =
        some (.apply (.binary op.operator)
          [.reg pos, .reg (e.localVar.getD (base.length + n))]) := by
    have hposlt' : pos < 256 := by omega
    cases op
    case mod => exact absurd rfl hmod
    all_goals simp [SQInstruction.computation, SQInstruction.ofArgs, SQInstruction.binary,
      ArithOperator.operator, BinaryOperator.opcode, Nat.mod_eq_of_lt hposlt']
  have hi : Does (execute ops base.length) (.ofArgs (some source) op.operator.opcode (pos : ℤ)
      (e.localVar.getD (base.length + n) : ℤ) (pos : ℤ) 0)
      (Contains (After e.localVar (base.length + n) B))
      (Contains (After (some pos) (base.length + n) B)) fun p =>
        (ops.apply (.binary op.operator) [p.2.1 pos, e.operand p.1.2 p.2] p.2).map
          fun q => ((p.1.1, q.1), World.assign q.2 pos q.1) := by
    apply does_apply (executes_apply hcomp)
    · intro p m hp
      have hreg := hp.reg (fun pos hpos => (hne pos hpos).lt) (Nat.le_add_right base.length n)
      simp only [List.map_cons, List.map_nil, Operand.value_reg, hreg, Registers.reg_of_lt hposlt,
        hp.1]
      rfl
    · intro p m q hp
      have hrest : Contains B (p.1.1, q.2) ({ m with world := q.2 } : Registers V G) :=
        ⟨rfl, hp.2.1⟩
      have harg0 : (SQInstruction.ofArgs (some source) op.operator.opcode (pos : ℤ)
          (e.localVar.getD (base.length + n) : ℤ) (pos : ℤ) 0).arg0.toNat = pos := hbyte
      rw [harg0]
      exact hrest.assign hposlt
  have hends : (((e.compile source (fs.pushTarget (some pos))).popTarget.popTarget.pushTarget
      (some pos)).addInstruction (.ofArgs (some source) op.operator.opcode (pos : ℤ)
        (e.localVar.getD (base.length + n) : ℤ) (pos : ℤ) 0)).Ends base.length
          (.compound pos) := by
    apply hpushed.ends.add
    · intro hop
      cases op <;> cases hop
    · intro _
      right
      exact ⟨hload, congrArg Tail.compound hbyte.symm, fun hnot => hzero (hbyte.symm.trans hnot)⟩
    · intro hop
      cases op <;> cases hop
    · intro hop
      cases op <;> first | exact absurd rfl hmod | cases hop
  have hcompiled := hpushed.add hi (merges_unmerged hun) hends
  rw [← hcode] at hcompiled
  refine ⟨hcompiled.congr fun x => ?_, hcompiled.ends.compares Tail.noConfusion⟩
  cases D x with
  | error x => rfl
  | ok p =>
    simp only [Expression.run, Expression.eval, bind, Except.bind]
    cases e.eval ops p.2 with
    | error x => rfl
    | ok q =>
      dsimp only [Except.map]
      cases ops.apply (.binary op.operator) [q.2.1 pos, e.operand q.1 q.2] q.2 <;> rfl

end Compilation

end Squirt.SQCompiler
