import Squirt.CompiledExpressions

/-!
# The code of assignments to members and of increments

The value that is stored is the value of the expression, too.
-/

namespace Squirt.SQCompiler

open CodeBlocks

section Compilation

variable {V E G : Type} {ops : Operations V E G} {base : List SQLocalVarInfo} {source : ℕ}
  {σ α : Type} {pre : List SQInstruction} {A : σ → Registers V G → Prop} {B : α → (ℕ → V) → Prop}
  {D : σ → Except (E × World V G) (α × World V G)} {τ : Tail} {n pos : ℕ} {ts : List ℕ}
  {fs : SQFuncState} {o k e : Expression}

/-! ### Members -/

/-- An object, a key and a value -/
structure Expression.Dereferenced (ops : Operations V E G) (base : List SQLocalVarInfo)
    (source : ℕ) (pre : List SQInstruction) (A : σ → Registers V G → Prop)
    (B : α → (ℕ → V) → Prop) (D : σ → Except (E × World V G) (α × World V G)) (n : ℕ) (ts : List ℕ)
    (o k e : Expression) (fs : SQFuncState) : Prop where
  compiled : ∃ τ, Computes ops base pre A
    (After e.localVar (base.length + (n + operandTemps o.localVar + operandTemps k.localVar))
      (After k.localVar (base.length + (n + operandTemps o.localVar))
        (After o.localVar (base.length + n) B)))
    (fun x => ((D x >>= o.run ops) >>= k.run ops) >>= e.run ops) τ n ts
    fs.popTarget.popTarget.popTarget
  targets : fs.targetstack =
    e.localVar.getD (base.length + (n + operandTemps o.localVar + operandTemps k.localVar)) ::
      k.localVar.getD (base.length + (n + operandTemps o.localVar)) ::
        o.localVar.getD (base.length + n) :: ts
  object : o.localVar.getD (base.length + n) < 256
  key : k.localVar.getD (base.length + (n + operandTemps o.localVar)) < 256
  value : e.localVar.getD
    (base.length + (n + operandTemps o.localVar + operandTemps k.localVar)) < 256
  reads : ∀ p m, Contains (G := G)
    (After e.localVar (base.length + (n + operandTemps o.localVar + operandTemps k.localVar))
      (After k.localVar (base.length + (n + operandTemps o.localVar))
        (After o.localVar (base.length + n) B))) p m →
    m.reg base.length (o.localVar.getD (base.length + n)) = o.operand p.1.1.1.2 p.2 ∧
    m.reg base.length (k.localVar.getD (base.length + (n + operandTemps o.localVar))) =
      k.operand p.1.1.2 p.2 ∧
    m.reg base.length (e.localVar.getD
      (base.length + (n + operandTemps o.localVar + operandTemps k.localVar))) =
      e.operand p.1.2 p.2
  zero : 0 < base.length → (o.localVar.getD (base.length + n) = 0 ↔ o.localVar = some 0)

theorem operandTemps_le (o : Option ℕ) : operandTemps o ≤ 1 := by
  unfold operandTemps
  split_ifs <;> omega

theorem dereferenced (ho : o.Compiles ops base source) (hk : k.Compiles ops base source)
    (he : e.Compiles ops base source)
    (hfit : o.Fits (Named base) τ ∧ k.Fits (Named base) (o.tail τ) ∧
      e.Fits (Named base) (k.tail (o.tail τ)))
    (h : Computes ops base pre A B D τ n ts fs) (hB : Below (base.length + n) B)
    (hlt : base.length + n + max o.depth (max (o.temps + k.depth)
      (max (o.temps + k.temps + e.depth) 1)) ≤ 128) :
    Expression.Dereferenced ops base source pre A B D n ts o k e
      (e.compile source (k.compile source (o.compile source fs))) := by
  have hto : o.temps = operandTemps o.localVar := rfl
  have htk : k.temps = operandTemps k.localVar := rfl
  have hlo := operandTemps_le o.localVar
  have hlk := operandTemps_le k.localVar
  have hno := hfit.1.named
  have hnk := hfit.2.1.named
  have hne := hfit.2.2.named
  have hboth := ho.both hk hfit.1 hfit.2.1 h hB (by omega)
  have hthird := (he hfit.2.2 hboth (below_after _ (below_after _ hB)) (by omega)).1
  exact {
    compiled := ⟨_, ((hthird.popTarget hne).popTarget hnk).popTarget hno⟩
    targets := hthird.allocated.targetstack
    object := operand_lt hno (by omega)
    key := operand_lt hnk (by omega)
    value := operand_lt hne (by omega)
    reads := fun p m hp =>
      ⟨hp.outer.outer.reg (fun pos hpos => (hno pos hpos).lt) (Nat.le_add_right _ _),
        hp.outer.reg (fun pos hpos => (hnk pos hpos).lt) (Nat.le_add_right _ _),
        hp.reg (fun pos hpos => (hne pos hpos).lt) (Nat.le_add_right _ _)⟩
    zero := operand_eq_zero hno }

/-- `EmitDerefOp` after the code of the operands, for an assignment -/
theorem compiles_derefOp (op : SQOpcode) (operation : Operation) {a : Expression}
    (ho : o.Compiles ops base source) (hk : k.Compiles ops base source)
    (he : e.Compiles ops base source) (hnone : a.localVar = none) (hother : ∀ τ, a.tail τ = .other)
    (hop : op = .SET ∧ operation = .set o.isThis ∨ op = .NEWSLOT ∧ operation = .newSlot)
    (hbase : 0 < base.length)
    (hcode : ∀ fs, a.compile source fs =
      (e.compile source (k.compile source (o.compile source fs))).emitDerefOp source op)
    (heval : ∀ w, a.eval ops w = o.eval ops w >>= fun p => k.eval ops p.2 >>= fun q =>
      e.eval ops q.2 >>= fun s => ops.apply operation
        [o.operand p.1 s.2, k.operand q.1 s.2, e.operand s.1 s.2] s.2 >>= fun r =>
          .ok (e.operand s.1 r.2, r.2))
    (hfits : ∀ τ, a.Fits (Named base) τ → o.Fits (Named base) τ ∧
      k.Fits (Named base) (o.tail τ) ∧ e.Fits (Named base) (k.tail (o.tail τ)))
    (hdepth : a.depth = max o.depth (max (o.temps + k.depth)
      (max (o.temps + k.temps + e.depth) 1))) : a.Compiles ops base source := by
  intro σ α pre A B D τ n ts fs hfit h hB hlt
  rw [hdepth] at hlt
  have hderef := dereferenced ho hk he (hfits τ hfit) h hB hlt
  obtain ⟨τ', hpop⟩ := hderef.compiled
  have hthis : decide (o.localVar.getD (base.length + n) = 0) = o.isThis := by
    simp only [Expression.isThis, hderef.zero hbase]
  have hop' : op = .SET ∧ operation = .set (o.localVar.getD (base.length + n) = 0) ∨
      op = .NEWSLOT ∧ operation = .newSlot := by
    rw [hthis]
    exact hop
  apply Expression.Compiles.intro hnone (hother τ)
  · rw [hcode, emitDerefOp_eq hderef.targets]
    apply hpop.again (fun y => y.1.1.1) (fun p =>
        [o.operand p.1.1.1.2 p.2, k.operand p.1.1.2 p.2, e.operand p.1.2 p.2]) (by omega) hB
      (executes_set hop' (by omega) hderef.key hderef.value) (fun y t hy => hy.1.1.1) _
      (fun p m hp => (hderef.reads p m hp).2.2)
    · apply merges_set
      rcases hop with hop | hop
      · exact .inl hop.1
      · exact .inr hop.1
    · rcases hop with ⟨rfl, _⟩ | ⟨rfl, _⟩ <;> exact SQOpcode.noConfusion
    · rcases hop with ⟨rfl, _⟩ | ⟨rfl, _⟩ <;> exact SQOpcode.noConfusion
    · rcases hop with ⟨rfl, _⟩ | ⟨rfl, _⟩ <;> exact SQOpcode.noConfusion
    · intro p m hp
      obtain ⟨hobject, hkey, hvalue⟩ := hderef.reads p m hp
      simp only [List.map_cons, List.map_nil, Operand.value_reg, hobject, hkey, hvalue]
  · intro x
    exact run_three (f := fun vo vk v w => ops.apply operation
      [o.operand vo w, k.operand vk w, e.operand v w] w >>= fun r => .ok (e.operand v r.2, r.2))
      heval (D x)

theorem compiles_assignMember (hbase : 0 < base.length) (ho : o.Compiles ops base source)
    (hk : k.Compiles ops base source) (he : e.Compiles ops base source) :
    (Expression.assignMember o k e).Compiles ops base source :=
  compiles_derefOp (a := .assignMember o k e) .SET (.set o.isThis) ho hk he rfl (fun _ => rfl)
    (.inl ⟨rfl, rfl⟩) hbase (fun _ => rfl) (fun _ => rfl) (fun _ h => h) rfl

theorem compiles_newSlot (hbase : 0 < base.length) (ho : o.Compiles ops base source)
    (hk : k.Compiles ops base source) (he : e.Compiles ops base source) :
    (Expression.newSlot o k e).Compiles ops base source :=
  compiles_derefOp (a := .newSlot o k e) .NEWSLOT .newSlot ho hk he rfl (fun _ => rfl)
    (.inr ⟨rfl, rfl⟩) hbase (fun _ => rfl) (fun _ => rfl) (fun _ h => h) rfl

theorem compiles_compoundMember (op : ArithOperator) (hbase : 0 < base.length)
    (ho : o.Compiles ops base source) (hk : k.Compiles ops base source)
    (he : e.Compiles ops base source) :
    (Expression.compoundMember op o k e).Compiles ops base source := by
  intro σ α pre A B D τ n ts fs hfit h hB hlt
  have hderef := dereferenced ho hk he hfit h hB hlt
  obtain ⟨τ', hpop⟩ := hderef.compiled
  simp only [Expression.depth] at hlt
  have hthis : decide (o.localVar.getD (base.length + n) = 0) = o.isThis := by
    simp only [Expression.isThis, hderef.zero hbase]
  have hcode : (Expression.compoundMember op o k e).compile source fs =
      (e.compile source (k.compile source
        (o.compile source fs))).popTarget.popTarget.popTarget.emitPush source .COMPARITH
        (packCompArith (o.localVar.getD (base.length + n)) (e.localVar.getD (base.length +
          (n + operandTemps o.localVar + operandTemps k.localVar))))
        (k.localVar.getD (base.length + (n + operandTemps o.localVar))) op.char.toNat := by
    obtain ⟨htop, hrest⟩ := topTarget_eq hderef.targets
    obtain ⟨htop', hrest'⟩ := topTarget_eq hrest
    rw [Expression.compile, htop, htop', (topTarget_eq hrest').1]
  have hobject := hderef.object
  have hvalue := hderef.value
  have hun : SQOpcode.COMPARITH ∈ unmerged := by decide
  have hchar : BitVec.ofInt 8 (op.char.toNat : ℤ) = op.char := by
    cases op <;> rfl
  have hcomp : (SQInstruction.ofArgs (some source) .COMPARITH ((base.length + n : ℕ) : ℤ)
      (packCompArith (o.localVar.getD (base.length + n)) (e.localVar.getD (base.length +
        (n + operandTemps o.localVar + operandTemps k.localVar))))
      (k.localVar.getD (base.length + (n + operandTemps o.localVar)) : ℤ)
      (op.char.toNat : ℤ)).computation = some (.apply (.derefInc op.char false o.isThis)
        [.reg (o.localVar.getD (base.length + n)),
          .reg (k.localVar.getD (base.length + (n + operandTemps o.localVar))),
          .reg (e.localVar.getD (base.length +
            (n + operandTemps o.localVar + operandTemps k.localVar)))]) := by
    simp only [SQInstruction.computation, SQInstruction.ofArgs, toNat_byte hderef.key, hchar,
      compArithSource_pack (hobject.trans (by decide)) (hvalue.trans (by decide)),
      compArithValue_pack (hobject.trans (by decide)) (hvalue.trans (by decide)), hthis]
  apply Expression.Compiles.intro rfl rfl
  · rw [hcode]
    apply hpop.store (fun y => y.1.1.1) (fun p =>
        [o.operand p.1.1.1.2 p.2, k.operand p.1.1.2 p.2, e.operand p.1.2 p.2]) (by omega) hB hcomp
      (fun y t hy => hy.1.1.1) _ (merges_unmerged hun) SQOpcode.noConfusion
    intro p m hp
    obtain ⟨hobject, hkey, hvalue⟩ := hderef.reads p m hp
    simp only [List.map_cons, List.map_nil, Operand.value_reg, hobject, hkey, hvalue]
  · intro x
    exact run_three (f := fun vo vk v w => ops.apply (.derefInc op.char false o.isThis)
      [o.operand vo w, k.operand vk w, e.operand v w] w) (fun w => rfl) (D x)

/-! ### Increments -/

theorem toInt_incDiff (minus : Bool) : (BitVec.ofInt 8 (incDiff minus)).toInt = incDiff minus := by
  cases minus <;> rfl

theorem executes_incl {r N : ℕ} {trg : ℤ} (minus : Bool) :
    Executes ops N (.ofArgs (some source) .INCL trg r 0 (incDiff minus)) fun m =>
      (Computation.run ops N m (.apply .inc [.reg r, .integer (incDiff minus)])).map fun p =>
        p.2.setReg N r p.1 := by
  intro m
  simp only [execute, SQInstruction.computation, SQInstruction.ofArgs, toInt_incDiff,
    Int.toNat_natCast]
  generalize Computation.run ops N m _ = r
  cases r <;> rfl

theorem executes_pincl {trg r N : ℕ} (htrg : trg < 256) (minus : Bool) :
    Executes ops N (.ofArgs (some source) .PINCL (trg : ℤ) r 0 (incDiff minus)) fun m =>
      (Computation.run ops N m (.apply .inc [.reg r, .integer (incDiff minus)])).map fun p =>
        (p.2.setReg N trg (p.2.reg N r)).setReg N r p.1 := by
  intro m
  simp only [execute, SQInstruction.computation, SQInstruction.ofArgs, toInt_incDiff,
    toNat_byte htrg, Int.toNat_natCast]
  generalize Computation.run ops N m _ = r
  cases r <;> rfl

theorem compiles_inc (minus post : Bool) :
    (Expression.inc minus post pos).Compiles ops base source := by
  intro σ α pre A B D τ n ts fs hpos h hB hlt
  have hposlt : pos < base.length := Named.lt hpos
  have hlocal : ∀ pos', some pos = some pos' → Named base pos' := by
    rintro _ ⟨⟩
    exact hpos
  have hvals : ∀ (p : α × World V G) m, Contains B p m →
      [Operand.reg pos, .integer (incDiff minus)].map (·.value ops base.length m) =
        [p.2.1 pos, ops.integer (incDiff minus)] := by
    intro p m hp
    simp only [List.map_cons, List.map_nil, Operand.value, Registers.reg_of_lt hposlt, hp.1]
  have hpush := h.pushLocal pos
  cases post with
  | true =>
    simp only [Expression.depth, if_pos] at hlt
    have hpop := hpush.popTarget (o := some pos) hlocal
    have hcode : (Expression.inc minus true pos).compile source fs =
        (fs.pushTarget (some pos)).popTarget.emitPush source .PINCL pos 0 (incDiff minus) := rfl
    have hun : SQOpcode.PINCL ∈ unmerged := by decide
    apply Expression.Compiles.intro rfl rfl
    · rw [hcode]
      have hi : Does (execute ops base.length)
          (.ofArgs (some source) .PINCL ((base.length + n : ℕ) : ℤ) pos 0 (incDiff minus))
          (Contains B) (Contains (After none (base.length + n) B)) fun p =>
            (ops.apply .inc [p.2.1 pos, ops.integer (incDiff minus)] p.2).map
              fun q => ((p.1, q.2.1 pos), World.assign q.2 pos q.1) := by
        apply does_apply (executes_pincl (by omega) minus) hvals
        intro p m q hp
        have hrest : Contains B (p.1, q.2) ({ m with world := q.2 } : Registers V G) := ⟨rfl, hp.2⟩
        have hread := hrest.setReg (v := q.2.1 pos) hB (Nat.le_add_right base.length n)
        have hstored : Contains (After (some pos) (base.length + n) (After none (base.length + n) B))
            (((p.1, q.2.1 pos), q.2.1 pos), World.assign q.2 pos q.1) _ := hread.assign hposlt
        rw [Registers.reg_of_lt hposlt]
        exact hstored.outer
      exact hpop.emitPush (by omega) hi (merges_unmerged hun) SQOpcode.noConfusion
        SQOpcode.noConfusion SQOpcode.noConfusion
    · intro x
      cases D x with
      | error x => rfl
      | ok p =>
        simp only [Expression.run, Expression.eval, bind, Except.bind]
        cases ops.apply .inc [p.2.1 pos, ops.integer (incDiff minus)] p.2 <;> rfl
  | false =>
    have hcode : (Expression.inc minus false pos).compile source fs =
        (fs.pushTarget (some pos)).addInstruction
          (.ofArgs (some source) .INCL (pos : ℤ) pos 0 (incDiff minus)) := rfl
    have hun : SQOpcode.INCL ∈ unmerged := by decide
    have hret : SQOpcode.INCL ∉ retargeted := by decide
    have hi : Does (execute ops base.length)
        (.ofArgs (some source) .INCL (pos : ℤ) pos 0 (incDiff minus))
        (Contains B) (Contains (After (some pos) (base.length + n) B)) fun p =>
          (ops.apply .inc [p.2.1 pos, ops.integer (incDiff minus)] p.2).map
            fun q => ((p.1, q.1), World.assign q.2 pos q.1) := by
      apply does_apply (executes_incl minus) hvals
      intro p m q hp
      have hrest : Contains B (p.1, q.2) ({ m with world := q.2 } : Registers V G) := ⟨rfl, hp.2⟩
      exact hrest.assign hposlt
    have hends : ((fs.pushTarget (some pos)).addInstruction
        (.ofArgs (some source) .INCL (pos : ℤ) pos 0 (incDiff minus))).Ends base.length .other :=
      hpush.ends.add_plain hret SQOpcode.noConfusion SQOpcode.noConfusion
    have hcompiled := hpush.add hi (merges_unmerged hun) hends
    rw [← hcode] at hcompiled
    refine ⟨hcompiled.congr fun x => ?_, hcompiled.ends.compares Tail.noConfusion⟩
    cases D x with
    | error x => rfl
    | ok p =>
      simp only [Expression.run, Expression.eval, bind, Except.bind]
      cases ops.apply .inc [p.2.1 pos, ops.integer (incDiff minus)] p.2 <;> rfl

section Temporaries

variable {r : ℕ} {D' : σ → Except (E × World V G) ((α × V) × World V G)}

theorem Contains.temp {p : (α × V) × World V G} {m : Registers V G}
    (h : Contains (After none r B) p m)
    (hr : base.length ≤ r) : m.reg base.length r = p.1.2 := by
  rw [Registers.reg_of_le hr]
  exact h.2.2 rfl

namespace Computes

variable (source) in
/-- The value of the temporary `r` is stored in an outer variable. -/
theorem setOuter (pos : ℕ) (h : Computes ops base pre A (After none r B) D' τ n ts fs)
    (hr : base.length ≤ r) (hlt : r < 255) : Computes ops base pre A (After none r B)
      (fun x => D' x >>= fun p =>
        (ops.apply (.setOuter pos) [p.1.2] p.2).map fun q => (p.1, q.2))
      .other n ts (fs.emit source .SETOUTER r pos r 0) := by
  apply h.add _ (merges_setOuter rfl)
  · have hret : SQOpcode.SETOUTER ∉ retargeted := by decide
    exact h.ends.add_plain hret SQOpcode.noConfusion SQOpcode.noConfusion
  · apply does_apply (executes_setOuter hlt (hlt.trans (by decide)))
    · intro p m hp
      simp only [List.map_cons, List.map_nil, Operand.value_reg, hp.temp hr]
    · intro p m q hp
      rw [Registers.setReg_reg_self]
      exact ⟨rfl, hp.2⟩

variable (source) in
/-- `++` or `--` of a temporary -/
theorem incl (minus : Bool) (h : Computes ops base pre A (After none r B) D' τ n ts fs)
    (hB : Below r B) (hr : base.length ≤ r) : Computes ops base pre A (After none r B)
      (fun x => D' x >>= fun p =>
        (ops.apply .inc [p.1.2, ops.integer (incDiff minus)] p.2).map fun q => ((p.1.1, q.1), q.2))
      .other n ts (fs.emit source .INCL r r 0 (incDiff minus)) := by
  have hun : SQOpcode.INCL ∈ unmerged := by decide
  apply h.add _ (merges_unmerged hun)
  · have hret : SQOpcode.INCL ∉ retargeted := by decide
    exact h.ends.add_plain hret SQOpcode.noConfusion SQOpcode.noConfusion
  · apply does_apply (executes_incl minus)
    · intro p m hp
      simp only [List.map_cons, List.map_nil, Operand.value, hp.temp hr]
    · intro p m q hp
      have hrest : Contains B (p.1.1, q.2) ({ m with world := q.2 } : Registers V G) :=
        ⟨rfl, hp.2.1⟩
      exact hrest.setReg hB hr

variable (source) in
/-- The same with the value of before in the temporary `r` -/
theorem pincl (minus : Bool) (h : Computes ops base pre A (After none (r + 1) B) D' τ n ts fs)
    (hB : Below r B) (hr : base.length ≤ r) (hlt : r < 256) :
    Computes ops base pre A (After none (r + 1) (After none r B))
      (fun x => D' x >>= fun p =>
        (ops.apply .inc [p.1.2, ops.integer (incDiff minus)] p.2).map fun q => ((p.1, q.1), q.2))
      .other n ts (fs.emit source .PINCL r (r + 1 : ℕ) 0 (incDiff minus)) := by
  have hun : SQOpcode.PINCL ∈ unmerged := by decide
  have hr' : base.length ≤ r + 1 := hr.trans r.le_succ
  apply h.add _ (merges_unmerged hun)
  · have hret : SQOpcode.PINCL ∉ retargeted := by decide
    exact h.ends.add_plain hret SQOpcode.noConfusion SQOpcode.noConfusion
  · apply does_apply (executes_pincl hlt minus)
    · intro p m hp
      simp only [List.map_cons, List.map_nil, Operand.value, hp.temp hr']
    · intro p m q hp
      have hafter : Contains (After none (r + 1) B) (p.1, q.2)
          ({ m with world := q.2 } : Registers V G) := ⟨rfl, hp.2⟩
      have hrest : Contains B (p.1.1, q.2) ({ m with world := q.2 } : Registers V G) :=
        ⟨rfl, hp.2.1⟩
      dsimp only
      rw [hafter.temp hr']
      have hstored : Contains (After none r B) (p.1, q.2)
          (({ m with world := q.2 } : Registers V G).setReg base.length r p.1.2) :=
        hrest.setReg hB hr
      exact hstored.setReg (hB.after (o := none)) hr'

end Computes

end Temporaries

theorem compiles_incOuter (minus post : Bool) :
    (Expression.incOuter minus post pos).Compiles ops base source := by
  intro σ α pre A B D τ n ts fs _ h hB hlt
  have hle := Nat.le_add_right base.length n
  cases post with
  | false =>
    simp only [Expression.depth, Bool.false_eq_true, if_false] at hlt
    have hread : Computes ops base pre A (After none (base.length + n) B)
        (fun x => D x >>= (Expression.leaf (.outer pos)).run ops) .other (n + 1)
        ((base.length + n) :: ts) (fs.emitPush source .GETOUTER pos 0 0) :=
      Leaf.compiled (.outer pos) h hB (by omega)
    have hset := (hread.incl source minus hB hle).setOuter source pos hle (by omega)
    have htop : (fs.pushTarget none).topTarget = base.length + n :=
      h.allocated.pushTarget.topTarget
    have hcode : (Expression.incOuter minus false pos).compile source fs =
        ((fs.emitPush source .GETOUTER pos 0 0).emit source .INCL ((base.length + n : ℕ) : ℤ)
          ((base.length + n : ℕ) : ℤ) 0 (incDiff minus)).emit source .SETOUTER
            ((base.length + n : ℕ) : ℤ) pos ((base.length + n : ℕ) : ℤ) 0 := by
      simp only [Expression.compile, compileIncOuter, Bool.false_eq_true, if_false, htop,
        SQFuncState.emitPush]
    apply Expression.Compiles.intro rfl rfl (hcode ▸ hset)
    intro x
    cases D x with
    | error x => rfl
    | ok p =>
      simp only [Expression.run, Expression.eval, Leaf.eval, bind, Except.bind]
      cases ops.apply (.getOuter pos) [] p.2 with
      | error x => rfl
      | ok q =>
        dsimp only [Except.map]
        cases ops.apply .inc [q.1, ops.integer (incDiff minus)] q.2 with
        | error x => rfl
        | ok s =>
          dsimp only
          cases ops.apply (.setOuter pos) [s.1] s.2 <;> rfl
  | true =>
    have hlt' : base.length + n + 2 ≤ 128 := hlt
    have hread : Computes ops base pre A (After none (base.length + n + 1) B)
        (fun x => D x >>= (Expression.leaf (.outer pos)).run ops) .other (n + 1 + 1)
        ((base.length + n + 1) :: (base.length + n) :: ts)
        ((fs.pushTarget none).emitPush source .GETOUTER pos 0 0) :=
      Leaf.compiled (.outer pos) h.pushTarget (hB.mono (Nat.le_succ _)) (by omega)
    have hset := (hread.pincl source minus hB hle (by omega)).setOuter source pos
      (hle.trans (Nat.le_succ _)) (by omega)
    have hpop := (hset.popTarget (o := none) (fun _ hnone => absurd hnone.symm (Option.some_ne_none _))).map Prod.fst
      fun y t hy => hy.1
    have htop : (fs.pushTarget none).topTarget = base.length + n :=
      h.allocated.pushTarget.topTarget
    have htop' : ((fs.pushTarget none).pushTarget none).topTarget = base.length + n + 1 :=
      h.allocated.pushTarget.pushTarget.topTarget
    have hcode : (Expression.incOuter minus true pos).compile source fs =
        ((((fs.pushTarget none).emitPush source .GETOUTER pos 0 0).emit source .PINCL
          ((base.length + n : ℕ) : ℤ) ((base.length + n + 1 : ℕ) : ℤ) 0 (incDiff minus)).emit source
            .SETOUTER ((base.length + n + 1 : ℕ) : ℤ) pos ((base.length + n + 1 : ℕ) : ℤ)
              0).popTarget := by
      simp only [Expression.compile, compileIncOuter, if_true, htop, htop',
        SQFuncState.emitPush]
    apply Expression.Compiles.intro rfl rfl (hcode ▸ hpop)
    intro x
    cases D x with
    | error x => rfl
    | ok p =>
      simp only [Expression.run, Expression.eval, Leaf.eval, bind, Except.bind]
      cases ops.apply (.getOuter pos) [] p.2 with
      | error x => rfl
      | ok q =>
        dsimp only [Except.map]
        cases ops.apply .inc [q.1, ops.integer (incDiff minus)] q.2 with
        | error x => rfl
        | ok s =>
          dsimp only
          cases ops.apply (.setOuter pos) [s.1] s.2 <;> rfl

end Compilation

end Squirt.SQCompiler
