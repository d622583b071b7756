import Squirt.CompiledStores

/-!
# The code of calls and arrays

The arguments of a call are in consecutive temporaries, after the one of `this`. The elements of an
array are appended one at a time.
-/

namespace Squirt.SQCompiler

open CodeBlocks

section Calls

variable {V E G : Type} {ops : Operations V E G} {base : List SQLocalVarInfo} {source : ℕ}
  {σ α : Type} {pre : List SQInstruction} {A : σ → Registers V G → Prop} {B : α → (ℕ → V) → Prop}
  {D : σ → Except (E × World V G) (α × World V G)} {τ : Tail} {n len : ℕ} {ts : List ℕ}
  {fs : SQFuncState} {e f o k : Expression} {es args : Expressions} {oo : Option ℕ}

/-! ### Arguments -/

private theorem isLocal_operand
    (h : fs.Allocated base (n + operandTemps oo) (oo.getD (base.length + n) :: ts))
    (ho : ∀ pos, oo = some pos → Named base pos) :
    fs.isLocal (oo.getD (base.length + n)) = oo.isSome := by
  cases oo with
  | some pos =>
    obtain ⟨lvi, hat, hnamed⟩ := ho pos rfl
    have hvar : fs.vlocals[pos]? = some lvi := by
      rw [h.vlocals, List.getElem?_append_left (List.getElem?_eq_some_iff.1 hat).1, hat]
    simp [SQFuncState.isLocal, hvar, hnamed]
  | none =>
    have hvlocals : fs.vlocals = base ++ List.replicate (n + 1) ⟨false, false⟩ := h.vlocals
    simp [SQFuncState.isLocal, hvlocals]

/-- The operand as a value that does not change any more -/
def Expression.runOperand (ops : Operations V E G) (e : Expression) (p : α × World V G) :
    Except (E × World V G) ((α × V) × World V G) :=
  (e.eval ops p.2).map fun q => ((p.1, e.operand q.1 q.2), q.2)

variable (source) in
/-- `MoveIfCurrentTargetIsLocal` -/
theorem Computes.moveIfLocal (he : e.Fits (Named base) τ) (hmoved : e.Moved τ)
    (h : Computes ops base pre A (After e.localVar (base.length + n) B)
      (fun x => D x >>= e.run ops) (e.tail τ) (n + operandTemps e.localVar)
      (e.localVar.getD (base.length + n) :: ts) fs)
    (hB : Below (base.length + n) B) (hlt : base.length + n < 256) :
    Computes ops base pre A (After none (base.length + n) B)
      (fun x => D x >>= e.runOperand ops)
      (if e.localVar.isSome then .other else e.tail τ) (n + 1) ((base.length + n) :: ts)
      (fs.moveIfCurrentTargetIsLocal source) := by
  have hne := he.named
  have htop := h.allocated.topTarget
  have hlocal := isLocal_operand h.allocated hne
  rw [SQFuncState.moveIfCurrentTargetIsLocal, htop, hlocal]
  cases hvar : e.localVar with
  | none =>
    rw [hvar] at h
    apply h.congr
    intro x
    cases D x with
    | error x => rfl
    | ok p =>
      change e.run ops p = e.runOperand ops p
      simp only [Expression.run, Expression.runOperand, Expression.operand, hvar, Option.elim_none]
  | some pos =>
    have hpos := hne pos hvar
    have hpop := h.popTarget hne
    rw [hvar] at hpop
    have hmerges : (fs.popTarget.pushTarget none).Merges ops base.length
        (.ofArgs (some source) .MOVE ((base.length + n : ℕ) : ℤ) pos 0 0)
        (Contains (G := G) (After none (base.length + n) B)) :=
      merges_move rfl hpop.pushTarget.ends rfl
        (hpos.lt.trans_le ((Nat.le_add_right _ _).trans hlt.le))
        (fun _ => .inr (hmoved pos hvar)) fun hle => absurd hle (Nat.not_le.2 hpos.lt)
    have hcopied : Computes ops base pre A (After none (base.length + n) B)
        (fun x => (D x >>= e.run ops) >>= fun p => .ok ((p.1.1, p.2.1 pos), p.2)) .other (n + 1)
        ((base.length + n) :: ts) (fs.popTarget.emitPush source .MOVE pos 0 0) := by
      apply hpop.copy (x := .reg pos) Prod.fst hlt hB rfl (fun y t hy => hy.1) _ hmerges
      intro p m hp
      rw [Operand.value_reg, Registers.reg_of_lt hpos.lt, hp.1]
    apply hcopied.congr
    intro x
    cases D x with
    | error x => rfl
    | ok p =>
      simp only [Expression.run, Expression.runOperand, Expression.operand, hvar, bind, Except.bind]
      cases e.eval ops p.2 <;> rfl

/-- The values of arguments are in the temporaries from `n` on. -/
def AfterArgs (n len : ℕ) (B : α → (ℕ → V) → Prop) (y : α × List V) (t : ℕ → V) : Prop :=
  B y.1 t ∧ (List.range len).map (fun j => t (n + j)) = y.2

def argTargets (n : ℕ) : ℕ → List ℕ → List ℕ
  | 0, ts => ts
  | len + 1, ts => (n + len) :: argTargets n len ts

private theorem argTargets_succ (n len : ℕ) (ts : List ℕ) :
    argTargets (n + 1) len (n :: ts) = argTargets n (len + 1) ts := by
  induction len with
  | zero => rfl
  | succ len ih =>
    rw [argTargets, ih, argTargets]
    congr 1
    omega

/-- The values of arguments beside what there is already -/
def Expressions.runArgs (ops : Operations V E G) (es : Expressions) (p : α × World V G) :
    Except (E × World V G) ((α × List V) × World V G) :=
  (es.evalArgs ops p.2).map fun q => ((p.1, q.1), q.2)

/-- After the code of the arguments their values are in the next temporaries. -/
def Expressions.ArgsCompile (ops : Operations V E G) (base : List SQLocalVarInfo) (source : ℕ)
    (es : Expressions) : Prop :=
  ∀ ⦃σ α : Type⦄ ⦃pre : List SQInstruction⦄ ⦃A : σ → Registers V G → Prop⦄
    ⦃B : α → (ℕ → V) → Prop⦄ ⦃D : σ → Except (E × World V G) (α × World V G)⦄ ⦃τ : Tail⦄ ⦃n : ℕ⦄
    ⦃ts : List ℕ⦄ ⦃fs : SQFuncState⦄, es.ArgsFit (Named base) τ →
    Computes ops base pre A B D τ n ts fs → Below (base.length + n) B →
    base.length + n + es.argsDepth ≤ 128 →
    ∃ τ', Computes ops base pre A (AfterArgs (base.length + n) es.length B)
      (fun x => D x >>= es.runArgs ops) τ' (n + es.length)
      (argTargets (base.length + n) es.length ts) (es.compileArgs source fs)

theorem argsCompile_nil : Expressions.nil.ArgsCompile ops base source := by
  intro σ α pre A B D τ n ts fs _ h hB hlt
  have hmap := h.map (C := AfterArgs (base.length + n) 0 B) (fun y => (y, [])) fun y t hy =>
    ⟨hy, rfl⟩
  refine ⟨τ, hmap.congr fun x => ?_⟩
  cases D x <;> rfl

theorem argsCompile_cons (he : e.Compiles ops base source)
    (hes : es.ArgsCompile ops base source) :
    (Expressions.cons e es).ArgsCompile ops base source := by
  intro σ α pre A B D τ n ts fs hfit h hB hlt
  simp only [Expressions.argsDepth] at hlt
  obtain ⟨⟨hfe, hmoved⟩, hfes⟩ := hfit
  have hfirst := (he hfe h hB (by omega)).1.moveIfLocal source hfe hmoved hB (by omega)
  obtain ⟨τ', hrest⟩ := hes hfes hfirst (below_after none hB) (by omega)
  refine ⟨τ', ?_⟩
  have hmap := hrest.map (C := AfterArgs (base.length + n) (es.length + 1) B)
    (fun y => (y.1.1, y.1.2 :: y.2)) fun y t hy => by
      refine ⟨hy.1.1, ?_⟩
      rw [List.range_succ_eq_map, List.map_cons, List.map_map, Nat.add_zero, hy.1.2 rfl, ← hy.2]
      congr 1
      apply List.map_congr_left
      intro j _
      simp only [Function.comp, Nat.succ_eq_add_one]
      congr 1
      omega
  have htargets : argTargets (base.length + (n + 1)) es.length ((base.length + n) :: ts) =
      argTargets (base.length + n) (es.length + 1) ts := argTargets_succ _ _ _
  rw [htargets, Nat.add_assoc, Nat.add_comm 1] at hmap
  apply hmap.congr
  intro x
  cases D x with
  | error x => rfl
  | ok p =>
    simp only [Expressions.runArgs, Expression.runOperand, Expressions.evalArgs, bind, Except.bind]
    cases e.eval ops p.2 with
    | error x => rfl
    | ok q =>
      dsimp only [Except.map]
      cases es.evalArgs ops q.2 <;> rfl

/-! ### Calls -/

/-- `PopTarget` of arguments -/
theorem Computes.popTargets {ts : List ℕ} : ∀ {len : ℕ} {fs : SQFuncState},
    Computes ops base pre A B D τ (n + len) (argTargets (base.length + n) len ts) fs →
    Computes ops base pre A B D τ n ts (fs.popTargets len) := by
  intro len
  induction len with
  | zero => exact fun h => h
  | succ len ih =>
    intro fs h
    have harg : Computes ops base pre A B D τ (n + len + operandTemps none)
        ((none : Option ℕ).getD (base.length + (n + len)) ::
          argTargets (base.length + n) len ts) fs := by
      rw [← Nat.add_assoc]
      exact h
    exact ih (harg.popTarget fun _ hnone => absurd hnone.symm (Option.some_ne_none _))

private theorem executes_call {trg closure stackbase nargs N : ℕ} (htrg : trg < 128)
    (hstackbase : stackbase < 256) (hnargs : nargs < 256) :
    Executes ops N (.ofArgs (some source) .CALL (trg : ℤ) closure stackbase nargs) fun m =>
      (Computation.run ops N m (.apply .call (.reg closure ::
        (List.range nargs).map fun j => .reg (stackbase + j)))).map fun p =>
          (p.2.afterCall ops stackbase p.2.world).setReg N trg p.1 := by
  intro m
  have hbyte : BitVec.ofInt 8 (trg : ℤ) ≠ 0xFF := by
    rw [BitVec.ofInt_natCast]
    exact byte_ne_max (htrg.trans (by decide))
  have htrg' : (BitVec.ofInt 8 (trg : ℤ)).toNat = trg := toNat_byte (htrg.trans (by decide))
  simp only [execute, SQInstruction.computation, SQInstruction.ofArgs, htrg', htrg, true_or,
    if_true, toNat_byte hstackbase, toNat_byte hnargs, Int.toNat_natCast, ne_eq, hbyte,
    not_false_eq_true, Computation.run, List.map_cons, List.map_map, Operand.value_reg]
  have hargs : (fun x => Operand.value ops N m x) ∘ (fun j => Operand.reg (stackbase + j)) =
      fun j => m.reg N (stackbase + j) := rfl
  rw [hargs]
  generalize ops.apply .call _ m.world = r
  cases r <;> rfl

theorem Contains.afterCall {m : Registers V G} {y : α} {world world' : World V G} {stackbase : ℕ}
    (h : Contains B (y, world) m) (hB : Below n B) (hle : n ≤ stackbase) :
    Contains B (y, world')
      (({ m with world := world' } : Registers V G).afterCall ops stackbase world') := by
  refine ⟨rfl, hB y m.temps _ (fun r hr => ?_) h.2⟩
  simp only [Registers.afterCall]
  rw [if_neg (Nat.not_le.2 (hr.trans_le hle))]

variable (source) in
/-- The end of `FunctionCallArgs`: what is called, `this` and the arguments are popped. -/
theorem Computes.endCall (oo : Option ℕ)
    {D' : σ → Except (E × World V G) ((((α × V) × V) × List V) × World V G)}
    (h : Computes ops base pre A (AfterArgs (base.length + (n + operandTemps oo + 1)) len
      (After none (base.length + (n + operandTemps oo)) (After oo (base.length + n) B))) D' τ
      (n + operandTemps oo + 1 + len) (argTargets (base.length + (n + operandTemps oo + 1)) len
        ((base.length + (n + operandTemps oo)) :: oo.getD (base.length + n) :: ts)) fs)
    (ho : ∀ pos, oo = some pos → Named base pos) (hB : Below (base.length + n) B)
    (hlt : base.length + n + 1 + len ≤ 128) :
    Computes ops base pre A (After none (base.length + n) B)
      (fun x => D' x >>= fun p =>
        (ops.apply .call (oo.elim p.1.1.1.2 p.2.1 :: p.1.1.2 :: p.1.2) p.2).map
          fun q => ((p.1.1.1.1, q.1), q.2)) .other (n + 1) ((base.length + n) :: ts)
      (fs.endCall source len) := by
  have hle := operandTemps_le oo
  have hargs := h.popTargets
  have hpop := hargs.popTarget (o := none) fun _ hnone => absurd hnone.symm (Option.some_ne_none _)
  have hpop' := hpop.popTarget ho
  have hcode : fs.endCall source len =
      (fs.popTargets len).popTarget.popTarget.emitPush source .CALL (oo.getD (base.length + n))
        ((base.length + (n + operandTemps oo) : ℕ) : ℤ) ((len + 1 : ℕ) : ℤ) := by
    rw [SQFuncState.endCall, hargs.allocated.topTarget, hpop.allocated.topTarget]
    rfl
  rw [hcode]
  have hun : SQOpcode.CALL ∈ unmerged := by decide
  have hi : Does (execute ops base.length)
      (.ofArgs (some source) .CALL ((base.length + n : ℕ) : ℤ) (oo.getD (base.length + n) : ℤ)
        ((base.length + (n + operandTemps oo) : ℕ) : ℤ) ((len + 1 : ℕ) : ℤ))
      (Contains (AfterArgs (base.length + (n + operandTemps oo + 1)) len
        (After none (base.length + (n + operandTemps oo)) (After oo (base.length + n) B))))
      (Contains (After none (base.length + n) B)) fun p =>
        (ops.apply .call (oo.elim p.1.1.1.2 p.2.1 :: p.1.1.2 :: p.1.2) p.2).map
          fun q => ((p.1.1.1.1, q.1), q.2) := by
    apply does_apply (executes_call (by omega) (by omega) (by omega))
    · intro p m hp
      have hclosure : Contains (After oo (base.length + n) B) (p.1.1.1, p.2) m :=
        ⟨hp.1, hp.2.1.1⟩
      have hreg := hclosure.reg (fun pos hpos => (ho pos hpos).lt) (Nat.le_add_right _ _)
      have hthis := hp.2.1.2 rfl
      have hvalues := hp.2.2
      have hall : (List.range (len + 1)).map (fun j =>
          m.reg base.length (base.length + (n + operandTemps oo) + j)) = p.1.1.2 :: p.1.2 := by
        rw [List.range_succ_eq_map, List.map_cons, List.map_map, Nat.add_zero,
          Registers.reg_of_le (Nat.le_add_right _ _), hthis, ← hvalues]
        congr 1
        apply List.map_congr_left
        intro j _
        simp only [Function.comp, Nat.succ_eq_add_one]
        rw [Registers.reg_of_le (by omega)]
        congr 1
        omega
      rw [List.map_cons, Operand.value_reg, hreg, List.map_map]
      exact congrArg _ hall
    · intro p m q hp
      have hrest : Contains B (p.1.1.1.1, p.2) m := ⟨hp.1, hp.2.1.1.1⟩
      exact (hrest.afterCall hB (by omega)).setReg hB (Nat.le_add_right _ _)
  exact hpop'.emitPush (by omega) hi (merges_unmerged hun) SQOpcode.noConfusion
    SQOpcode.noConfusion SQOpcode.noConfusion

theorem Expressions.length_le_argsDepth : ∀ es : Expressions, es.length ≤ es.argsDepth
  | .nil => Nat.le_refl 0
  | .cons e es => by
    have ih := es.length_le_argsDepth
    simp only [Expressions.length, Expressions.argsDepth]
    omega

theorem compiles_call (hbase : 0 < base.length) (hf : f.Compiles ops base source)
    (hargs : args.ArgsCompile ops base source) :
    (Expression.call f args).Compiles ops base source := by
  intro σ α pre A B D τ n ts fs hfit h hB hlt
  simp only [Expression.depth] at hlt
  have htemps : f.temps = operandTemps f.localVar := rfl
  have hlen := args.length_le_argsDepth
  have hnf := hfit.1.named
  have hclosure := (hf hfit.1 h hB (by omega)).1
  have hB' := below_after f.localVar hB
  have hmerges : ((f.compile source fs).pushTarget none).Merges ops base.length
      (.ofArgs (some source) .MOVE
        ((base.length + (n + operandTemps f.localVar) : ℕ) : ℤ) 0 0 0)
      (Contains (G := G) (After none (base.length + (n + operandTemps f.localVar))
        (After f.localVar (base.length + n) B))) :=
    merges_move rfl hclosure.pushTarget.ends (n := 0) rfl (by decide) (fun _ => .inl rfl)
      fun hle => absurd hle (Nat.not_le.2 hbase)
  have hthis : Computes ops base pre A (After none (base.length + (n + operandTemps f.localVar))
        (After f.localVar (base.length + n) B))
      (fun x => (D x >>= f.run ops) >>= fun p => .ok ((p.1, p.2.1 0), p.2)) .other
      (n + operandTemps f.localVar + 1) ((base.length + (n + operandTemps f.localVar)) ::
        f.localVar.getD (base.length + n) :: ts)
      ((f.compile source fs).emitPush source .MOVE 0 0 0) := by
    apply hclosure.copy (x := .reg 0) id (by omega) hB' rfl (fun _ _ hy => hy) _ hmerges
    intro p m hp
    rw [Operand.value_reg, Registers.reg_of_lt hbase, hp.1]
  obtain ⟨τ', hall⟩ := hargs hfit.2 hthis (below_after none hB') (by omega)
  have hend := Computes.endCall source f.localVar hall hnf hB (by omega)
  apply Expression.Compiles.intro rfl rfl hend
  intro x
  cases D x with
  | error x => rfl
  | ok p =>
    simp only [Expression.run, Expressions.runArgs, Expression.eval, bind, Except.bind]
    cases f.eval ops p.2 with
    | error x => rfl
    | ok q =>
      dsimp only [Except.map]
      cases args.evalArgs ops q.2 with
      | error x => rfl
      | ok s => rfl

/-! ### Calls of members -/

private theorem executes_prepMember {trg key table ttarget N : ℕ} (htrg : trg < 256)
    (htable : table < 256) (httarget : ttarget < 256) :
    Executes ops N (.ofArgs (some source) .PREPCALL (trg : ℤ) key table ttarget) fun m =>
      (Computation.run ops N m (.apply (.get (table = 0)) [.reg table, .reg key])).map fun p =>
        (p.2.setReg N ttarget (p.2.reg N table)).setReg N trg p.1 := by
  have hop : (SQInstruction.ofArgs (some source) .PREPCALL (trg : ℤ) key table ttarget).op =
      .PREPCALL := rfl
  have hexec : Executes ops N
    (.ofArgs (some source) .PREPCALL (trg : ℤ) key table ttarget) _ := executes_prepCall (.inl hop)
  have hthis : BitVec.ofInt 8 (table : ℤ) = 0 ↔ table = 0 := by
    rw [BitVec.ofInt_natCast]
    exact byte_eq_zero htable
  simpa only [SQInstruction.ofArgs, toNat_byte htrg, toNat_byte htable, toNat_byte httarget,
    Int.toNat_natCast, hthis, reduceCtorEq, if_false] using hexec

private theorem Registers.setReg_comm {m : Registers V G} {r t N : ℕ} {v w : V} (hr : N ≤ r)
    (ht : N ≤ t)
    (hne : r ≠ t) : (m.setReg N r v).setReg N t w = (m.setReg N t w).setReg N r v := by
  simp only [Registers.setReg_of_le hr, Registers.setReg_of_le ht]
  rw [Function.update_comm hne]

theorem compiles_callMember (hbase : 0 < base.length) (ho : o.Compiles ops base source)
    (hk : k.Compiles ops base source) (hargs : args.ArgsCompile ops base source) :
    (Expression.callMember o k args).Compiles ops base source := by
  intro σ α pre A B D τ n ts fs hfit h hB hlt
  simp only [Expression.depth] at hlt
  have htemps : o.temps = operandTemps o.localVar := rfl
  have hlo := operandTemps_le o.localVar
  have hlen := args.length_le_argsDepth
  have hno := hfit.1.named
  have hnk := hfit.2.1.named
  have hboth := ho.both hk hfit.1 hfit.2.1 h hB (by omega)
  have hro : o.localVar.getD (base.length + n) < 256 := operand_lt hno (by omega)
  have hpop := (hboth.popTarget hnk).popTarget hno
  generalize hfs' : (k.compile source (o.compile source fs)).popTarget.popTarget = fs' at hpop
  have hpush := hpop.pushTarget.pushTarget
  have hi : Does (execute ops base.length)
      (.ofArgs (some source) .PREPCALL ((base.length + n : ℕ) : ℤ)
        (k.localVar.getD (base.length + (n + operandTemps o.localVar)) : ℤ)
        (o.localVar.getD (base.length + n) : ℤ) ((base.length + (n + 1) : ℕ) : ℤ))
      (Contains (After k.localVar (base.length + (n + operandTemps o.localVar))
        (After o.localVar (base.length + n) B)))
      (Contains (After none (base.length + (n + 1)) (After none (base.length + n) B))) fun p =>
        (ops.apply (.get o.isThis) [o.operand p.1.1.2 p.2, k.operand p.1.2 p.2] p.2).map
          fun q => (((p.1.1.1, q.1), o.operand p.1.1.2 q.2), q.2) := by
    have hthis : decide (o.localVar.getD (base.length + n) = 0) = o.isThis := by
      simp only [Expression.isThis, operand_eq_zero hno hbase]
    rw [← hthis]
    apply does_apply (executes_prepMember (by omega) hro (by omega))
    · intro p m hp
      have hobject := hp.outer.reg (fun pos hpos => (hno pos hpos).lt) (Nat.le_add_right _ _)
      have hkey := hp.reg (fun pos hpos => (hnk pos hpos).lt) (Nat.le_add_right _ _)
      simp only [List.map_cons, List.map_nil, Operand.value_reg, hobject, hkey]
      rfl
    · intro p m q hp
      have hafter : Contains (After k.localVar (base.length + (n + operandTemps o.localVar))
          (After o.localVar (base.length + n) B)) (p.1, q.2)
            ({ m with world := q.2 } : Registers V G) := ⟨rfl, hp.2⟩
      have hobject := hafter.outer.reg (fun pos hpos => (hno pos hpos).lt) (Nat.le_add_right _ _)
      have hstored := hafter.outer.outer.setReg (v := q.1) hB (Nat.le_add_right base.length n)
      dsimp only
      rw [hobject, Registers.setReg_comm (Nat.le_add_right _ _) (Nat.le_add_right _ _) (by omega)]
      exact hstored.setReg (hB.after (o := none)) (Nat.le_add_right _ _)
  have hmerges : ((fs'.pushTarget none).pushTarget none).Merges ops base.length
      (.ofArgs (some source) .PREPCALL ((base.length + n : ℕ) : ℤ)
        (k.localVar.getD (base.length + (n + operandTemps o.localVar)) : ℤ)
        (o.localVar.getD (base.length + n) : ℤ) ((base.length + (n + 1) : ℕ) : ℤ))
      (Contains (G := G) (After none (base.length + (n + 1)) (After none (base.length + n) B))) := by
    have hbyte : (BitVec.ofInt 8 (o.localVar.getD (base.length + n) : ℤ)).toNat =
        o.localVar.getD (base.length + n) := toNat_byte hro
    have hbyte' : (BitVec.ofInt 8 ((base.length + (n + 1) : ℕ) : ℤ)).toNat =
        base.length + (n + 1) := toNat_byte (by omega)
    have hbyte'' : (BitVec.ofInt 8 ((base.length + n : ℕ) : ℤ)).toNat =
        base.length + n := toNat_byte (by omega)
    apply merges_prepCall rfl hpush.ends rfl
    · intro hle
      simp only [SQInstruction.ofArgs, hbyte]
      exact operands_ne hno hnk hle
    · -- the key is in the place of `this`, or in the one of what is called
      intro hle
      simp only [SQInstruction.ofArgs, hbyte', hbyte'', operand_temp hnk hle, Option.getD_none]
      rcases Nat.le_one_iff_eq_zero_or_eq_one.1 hlo with hzero | hone
      · exact .inr (.inl (by omega))
      · exact .inl (by omega)
  have hret : SQOpcode.PREPCALL ∉ retargeted := by decide
  have hends : (((fs'.pushTarget none).pushTarget none).addInstruction
      (.ofArgs (some source) .PREPCALL ((base.length + n : ℕ) : ℤ)
        (k.localVar.getD (base.length + (n + operandTemps o.localVar)) : ℤ)
        (o.localVar.getD (base.length + n) : ℤ) ((base.length + (n + 1) : ℕ) : ℤ))).Ends
        base.length .other :=
    hpush.ends.add_plain hret SQOpcode.noConfusion SQOpcode.noConfusion
  have hprepared := hpush.add hi hmerges hends
  obtain ⟨τ', hall⟩ := hargs hfit.2.2 hprepared
    (below_after none (below_after none hB)) (by omega)
  have hnone : ∀ pos, (none : Option ℕ) = some pos → Named base pos :=
    fun _ hnone => absurd hnone.symm (Option.some_ne_none _)
  have hend := Computes.endCall source none hall hnone hB (by omega)
  have hcode : (Expression.callMember o k args).compile source fs =
      (args.compileArgs source (((fs'.pushTarget none).pushTarget none).addInstruction
        (.ofArgs (some source) .PREPCALL ((base.length + n : ℕ) : ℤ)
          (k.localVar.getD (base.length + (n + operandTemps o.localVar)) : ℤ)
          (o.localVar.getD (base.length + n) : ℤ)
          ((base.length + (n + 1) : ℕ) : ℤ)))).endCall source args.length := by
    obtain ⟨htop, hrest⟩ := topTarget_eq hboth.allocated.targetstack
    obtain ⟨htop', _⟩ := topTarget_eq hrest
    simp only [Expression.compile, htop, htop', hfs', hpop.pushTarget.allocated.topTarget,
      hpush.allocated.topTarget]
    rfl
  apply Expression.Compiles.intro rfl rfl (hcode ▸ hend)
  intro x
  cases D x with
  | error x => rfl
  | ok p =>
    simp only [Expression.run, Expressions.runArgs, Expression.eval, bind, Except.bind]
    cases o.eval ops p.2 with
    | error x => rfl
    | ok q =>
      dsimp only [Except.map]
      cases k.eval ops q.2 with
      | error x => rfl
      | ok s =>
        dsimp only
        cases ops.apply (.get o.isThis) [o.operand q.1 s.2, k.operand s.1 s.2] s.2 with
        | error x => rfl
        | ok u =>
          dsimp only
          cases args.evalArgs ops u.2 <;> rfl

/-! ### Arrays -/

/-- Elements are appended to the array that `v` is. -/
def Expressions.runElements (ops : Operations V E G) (es : Expressions) (v : α → V)
    (p : α × World V G) : Except (E × World V G) (α × World V G) :=
  (es.evalElements ops (v p.1) p.2).map fun w => (p.1, w)

/-- The code of elements appends them to the array in the register `r`. -/
def Expressions.ElementsCompile (ops : Operations V E G) (base : List SQLocalVarInfo)
    (source : ℕ) (es : Expressions) : Prop :=
  ∀ ⦃σ α : Type⦄ ⦃pre : List SQInstruction⦄ ⦃A : σ → Registers V G → Prop⦄
    ⦃B : α → (ℕ → V) → Prop⦄ ⦃D : σ → Except (E × World V G) (α × World V G)⦄ ⦃n r : ℕ⦄
    ⦃ts : List ℕ⦄ ⦃fs : SQFuncState⦄ ⦃v : α → V⦄, es.Fits (Named base) →
    Computes ops base pre A B D .other n (r :: ts) fs → Below (base.length + n) B →
    (∀ y t, B y t → t r = v y) → base.length ≤ r → r < base.length + n →
    base.length + n + es.depth ≤ 128 →
    Computes ops base pre A B (fun x => D x >>= es.runElements ops v) .other n (r :: ts)
      (es.compileElements source fs)

theorem elementsCompile_nil : Expressions.nil.ElementsCompile ops base source := by
  intro σ α pre A B D n r ts fs v _ h _ _ _ _ _
  apply h.congr
  intro x
  cases D x <;> rfl

theorem elementsCompile_cons (he : e.Compiles ops base source)
    (hes : es.ElementsCompile ops base source) :
    (Expressions.cons e es).ElementsCompile ops base source := by
  intro σ α pre A B D n r ts fs v hfit h hB hv hr hrlt hlt
  simp only [Expressions.depth] at hlt
  have hne := hfit.1.named
  have hfirst := (he hfit.1 h hB (by omega)).1
  have hpop := hfirst.popTarget hne
  have hrbyte : (BitVec.ofInt 8 (r : ℤ)).toNat = r := toNat_byte (by omega)
  have hi : Does (execute ops base.length) (.ofArgs (some source) .APPENDARRAY (r : ℤ)
      (e.localVar.getD (base.length + n) : ℤ) 0 0)
      (Contains (After e.localVar (base.length + n) B)) (Contains B) fun p =>
        (ops.apply .append [v p.1.1, e.operand p.1.2 p.2] p.2).map fun q => (p.1.1, q.2) := by
    apply does_apply (executes_appendArray rfl)
    · intro p m hp
      have hreg := hp.reg (fun pos hpos => (hne pos hpos).lt) (Nat.le_add_right base.length n)
      have harray : m.reg base.length r = v p.1.1 := by
        rw [Registers.reg_of_le hr]
        exact hv p.1.1 m.temps hp.2.1
      have hitem : (SQInstruction.ofArgs (some source) .APPENDARRAY (r : ℤ)
          (e.localVar.getD (base.length + n) : ℤ) 0 0).appended =
            .reg (e.localVar.getD (base.length + n)) := rfl
      rw [hitem]
      simp only [List.map_cons, List.map_nil, Operand.value_reg, SQInstruction.ofArgs, hrbyte,
        harray, hreg]
      rfl
    · intro p m q hp
      exact ⟨rfl, hp.2.1⟩
  have hmerges : (e.compile source fs).popTarget.Merges ops base.length
      (.ofArgs (some source) .APPENDARRAY (r : ℤ) (e.localVar.getD (base.length + n) : ℤ) 0 0)
      (Contains (G := G) B) := by
    apply merges_appendArray rfl hpop.ends rfl rfl
    · intro hle
      simp only [SQInstruction.ofArgs, hrbyte, operand_temp hne hle, Option.getD_none]
      omega
    · intro hle
      rw [operand_temp hne hle]
      exact hB.blind le_rfl
  have hret : SQOpcode.APPENDARRAY ∉ retargeted := by decide
  have hends : ((e.compile source fs).popTarget.addInstruction (.ofArgs (some source) .APPENDARRAY
      (r : ℤ) (e.localVar.getD (base.length + n) : ℤ) 0 0)).Ends base.length .other :=
    hpop.ends.add_plain hret SQOpcode.noConfusion SQOpcode.noConfusion
  have happended := hpop.add hi hmerges hends
  have hrest := hes hfit.2 happended hB hv hr hrlt (by omega)
  have hcode : (Expressions.cons e es).compileElements source fs =
      es.compileElements source ((e.compile source fs).popTarget.addInstruction
        (.ofArgs (some source) .APPENDARRAY (r : ℤ)
          (e.localVar.getD (base.length + n) : ℤ) 0 0)) := by
    rw [Expressions.compileElements, hfirst.allocated.topTarget, hpop.allocated.topTarget]
    rfl
  rw [hcode]
  apply hrest.congr
  intro x
  cases D x with
  | error x => rfl
  | ok p =>
    simp only [Expression.run, Expressions.runElements, Expressions.evalElements, bind, Except.bind]
    cases e.eval ops p.2 with
    | error x => rfl
    | ok q =>
      dsimp only [Except.map]
      cases ops.apply .append [v p.1, e.operand q.1 q.2] q.2 <;> rfl

theorem modify_middle {i : SQInstruction} (f : SQInstruction → SQInstruction)
    (l rest : List SQInstruction) :
    (l ++ [i] ++ rest).modify l.length f = l ++ [f i] ++ rest := by
  induction l with
  | nil => rfl
  | cons j l ih => simpa using ih

theorem compiles_array (hes : es.ElementsCompile ops base source) :
    (Expression.array es).Compiles ops base source := by
  intro σ α pre A B D τ n ts fs hfit h hB hlt
  simp only [Expression.depth] at hlt
  have hun : SQOpcode.NEWOBJ ∈ unmerged := by decide
  have hnot : SQOpcode.NEWOBJ ∉ mergeable := by decide
  generalize hfs₁ : fs.emitPush source .NEWOBJ 0 0 1 = fs₁
  have hcode₁ : fs₁.instructions = fs.instructions ++
      [.ofArgs (some source) .NEWOBJ ((base.length + n : ℕ) : ℤ) 0 0 1] := by
    rw [← hfs₁]
    exact instructions_emitPush h.allocated hun
  have hnew : Computes ops base pre A (After none (base.length + n) B)
      (fun x => D x >>= fun p => (ops.apply .newArray [] p.2).map fun q => ((p.1, q.1), q.2))
      .other (n + 1) ((base.length + n) :: ts) fs₁ := by
    rw [← hfs₁]
    have hcomp : (SQInstruction.ofArgs (some source) .NEWOBJ ((base.length + n : ℕ) : ℤ) 0 0
        1).computation = some (.apply .newArray []) := rfl
    exact h.store id _ (by omega) hB hcomp (fun _ _ hy => hy) (fun _ _ _ => rfl)
      (merges_unmerged hun) SQOpcode.noConfusion
  -- the elements are compiled after the instruction as it is now
  have hstart : Computes ops base fs₁.instructions (Contains (After none (base.length + n) B))
      (After none (base.length + n) B) (Except.ok (ε := E × World V G)) .other (n + 1)
      ((base.length + n) :: ts) fs₁ := by
    refine ⟨hnew.allocated, Emitted.start ?_, hnew.ends⟩
    intro _ pi hpi
    rw [hcode₁, List.getLast?_concat] at hpi
    cases hpi
    exact hnot
  have helements := hes (v := Prod.snd) hfit hstart (below_after none hB)
    (fun y t hy => hy.2 rfl) (Nat.le_add_right _ _) (by omega) (by omega)
  have hi : Does (execute ops base.length)
      (.ofArgs (some source) .NEWOBJ ((base.length + n : ℕ) : ℤ) es.length 0 1) (Contains B)
      (Contains (After none (base.length + n) B)) fun p =>
        (ops.apply .newArray [] p.2).map fun q => ((p.1, q.1), q.2) := by
    have hcomp : (SQInstruction.ofArgs (some source) .NEWOBJ ((base.length + n : ℕ) : ℤ) es.length 0
        1).computation = some (.apply .newArray []) := rfl
    exact does_store id hcomp (toNat_byte (by omega)) (Nat.le_add_right _ _) hB
      (fun _ _ hy => hy) fun _ _ _ => rfl
  have hpatched : Emitted ops base.length pre A (Contains (After none (base.length + n) B)) _
      ({ fs with instructions := fs.instructions ++
        [.ofArgs (some source) .NEWOBJ ((base.length + n : ℕ) : ℤ) es.length 0 1] } :
          SQFuncState) := h.emitted.push hi rfl
  obtain ⟨rest, hrest⟩ := helements.emitted.isPrefix
  generalize hfs₂ : es.compileElements source fs₁ = fs₂ at helements hrest
  have hset : fs₂.setArg1 fs₁.getCurrentPos es.length = { fs₂ with instructions :=
      fs.instructions ++
        [.ofArgs (some source) .NEWOBJ ((base.length + n : ℕ) : ℤ) es.length 0 1] ++ rest } := by
    have hpos : fs₁.getCurrentPos = fs.instructions.length := by
      simp [SQFuncState.getCurrentPos, hcode₁]
    rw [hpos, SQFuncState.setArg1, SQFuncState.modifyInstruction, if_pos (Int.natCast_nonneg _),
      Int.toNat_natCast, ← hrest, hcode₁, modify_middle]
    rfl
  have hcode : (Expression.array es).compile source fs =
      fs₂.setArg1 fs₁.getCurrentPos es.length := by
    rw [Expression.compile, hfs₁, hfs₂]
  rw [hset] at hcode
  generalize hfs₃ : ({ fs₂ with instructions := fs.instructions ++
    [.ofArgs (some source) .NEWOBJ ((base.length + n : ℕ) : ℤ) es.length 0 1] ++ rest } :
      SQFuncState) = fs₃ at hcode
  have hcode₃ : fs₃.instructions = fs.instructions ++
      [.ofArgs (some source) .NEWOBJ ((base.length + n : ℕ) : ℤ) es.length 0 1] ++ rest := by
    rw [← hfs₃]
  have hmerging : fs₃.Merging → fs₂.Merging := by
    rw [← hfs₃]
    exact fun hm => hm
  have hallocated : fs₃.Allocated base (n + 1) ((base.length + n) :: ts) := by
    rw [← hfs₃]
    exact helements.allocated.of_eq rfl rfl
  have hlast : ∀ pi, (fs.instructions ++ [SQInstruction.ofArgs (some source) .NEWOBJ
      ((base.length + n : ℕ) : ℤ) es.length 0 1]).getLast? = some pi → pi.op = .NEWOBJ := by
    intro pi hpi
    rw [List.getLast?_concat] at hpi
    cases hpi
    rfl
  have hseq := Emitted.seq hpatched.implements hpatched.isPrefix helements.emitted
    (by simp [hcode₁]) hrest.symm hcode₃ hmerging fun pi hpi => hlast pi hpi ▸ hnot
  have hends : fs₃.Ends base.length .other := by
    intro hm pi hpi
    rcases List.eq_nil_or_concat rest with rfl | ⟨rest', pi', rfl⟩
    · rw [hcode₃, List.append_nil] at hpi
      have hret : SQOpcode.NEWOBJ ∉ retargeted := by decide
      rw [hlast pi hpi]
      exact ⟨SQOpcode.noConfusion, fun hop => absurd hop hret, SQOpcode.noConfusion,
        SQOpcode.noConfusion⟩
    · rw [List.concat_eq_append, ← List.append_assoc] at hcode₃ hrest
      rw [hcode₃, List.getLast?_concat] at hpi
      apply helements.ends (hmerging hm) pi
      rw [← hrest, List.getLast?_concat, hpi]
  have hcompiled : Computes ops base pre A (After none (base.length + n) B) _ .other (n + 1)
      ((base.length + n) :: ts) fs₃ := ⟨hallocated, hseq, hends⟩
  rw [← hcode] at hcompiled
  apply Expression.Compiles.intro rfl rfl hcompiled
  intro x
  cases D x with
  | error x => rfl
  | ok p =>
    simp only [Expression.run, Expressions.runElements, Expression.eval, bind, Except.bind]
    cases ops.apply .newArray [] p.2 with
    | error x => rfl
    | ok q =>
      dsimp only [Except.map]
      cases es.evalElements ops q.1 q.2 <;> rfl

end Calls

end Squirt.SQCompiler
