import Squirt.CompiledCalls

/-!
# The code of logical operators and conditional expressions

Both operands leave their value in one temporary. The jumps are filled in when the code is
complete.
-/

namespace Squirt.SQCompiler

open CodeBlocks

section Branches

variable {V E G : Type} {ops : Operations V E G} {base : List SQLocalVarInfo} {source : ℕ}
  {σ α β : Type} {pre : List SQInstruction} {A : σ → Registers V G → Prop}
  {B : α → (ℕ → V) → Prop} {C : β → (ℕ → V) → Prop} {τ : Tail} {n : ℕ} {ts : List ℕ}
  {fs : SQFuncState} {a b c e : Expression}

theorem SameBut.symm {t : ℕ} {m m' : Registers V G} (h : SameBut t m m') : SameBut t m' m :=
  ⟨h.1.symm, fun r hr => (h.2 r hr).symm⟩

/-- Nothing is merged after this. -/
theorem Emitted.of_implements {nlocals : ℕ} {ρ : Type} {M : ρ → Registers V G → Prop}
    {F : σ → Except (E × World V G) ρ} (hpre : pre <+: fs.instructions)
    (h : Implements (execute ops nlocals) fs.instructions pre.length fs.instructions.length A M F)
    (hm : ¬fs.Merging) : Emitted ops nlocals pre A M F fs :=
  ⟨hpre, h, fun hmerging => absurd hmerging hm⟩

theorem SQFuncState.not_merging_snoozeOpt (fs : SQFuncState) : ¬fs.snoozeOpt.Merging :=
  fun hm => Bool.false_ne_true hm.2

theorem Computes.snoozeOpt {D : σ → Except (E × World V G) (α × World V G)}
    (h : Computes ops base pre A B D τ n ts fs) :
    Computes ops base pre A B D .other n ts fs.snoozeOpt :=
  ⟨h.allocated.of_eq rfl rfl,
    h.emitted.of_eq rfl fun hm => absurd hm fs.not_merging_snoozeOpt,
    fun hm => absurd hm fs.not_merging_snoozeOpt⟩

/-- The code goes on after an instruction that nothing is merged with. -/
theorem Computes.start (h : fs.Allocated base n ts)
    (hlast : fs.Merging → ∀ pi, fs.instructions.getLast? = some pi → pi.op ∉ mergeable) :
    Computes ops base fs.instructions (Contains B) B (Except.ok (ε := E × World V G)) .other n ts
      fs :=
  ⟨h, Emitted.start hlast, fun hm pi hpi => ends_of_not_mergeable (hlast hm pi hpi)⟩

theorem Computes.start_after {i : SQInstruction} {l : List SQInstruction}
    (h : fs.Allocated base n ts) (hcode : fs.instructions = l ++ [i]) (hi : i.op ∉ mergeable) :
    Computes ops base fs.instructions (Contains B) B (Except.ok (ε := E × World V G)) .other n ts
      fs := by
  apply Computes.start h
  intro _ pi hpi
  rw [hcode, List.getLast?_concat] at hpi
  cases hpi
  exact hi

variable (source) in
/-- The value of a branch is moved to the temporary before it. -/
theorem Computes.moveTo {D : σ → Except (E × World V G) (β × World V G)} (proj : β → α)
    (h : Computes ops base pre A (After e.localVar (base.length + (n + 1)) C)
      (fun x => D x >>= e.run ops) τ (n + 1 + operandTemps e.localVar)
      (e.localVar.getD (base.length + (n + 1)) :: (base.length + n) :: ts) fs)
    (hproj : ∀ y t, C y t → B (proj y) t) (hne : ∀ pos, e.localVar = some pos → Named base pos)
    (hmoved : ∀ pos, e.localVar = some pos → τ ≠ .compound pos) (hB : Below (base.length + n) B)
    (hlt : base.length + (n + 1) < 256) :
    Computes ops base pre A (After none (base.length + n) B)
      (fun x => (D x >>= e.run ops) >>= fun p =>
        .ok ((proj p.1.1, e.operand p.1.2 p.2), p.2)) .other (n + 1) ((base.length + n) :: ts)
      (fs.popTarget.addMove source (base.length + n)
        (e.localVar.getD (base.length + (n + 1)))) := by
  have hpop := h.popTarget hne
  have hre : e.localVar.getD (base.length + (n + 1)) < 256 := operand_lt hne hlt
  have hdiff : base.length + n ≠ e.localVar.getD (base.length + (n + 1)) := by
    cases hvar : e.localVar with
    | none =>
      rw [Option.getD_none]
      omega
    | some pos =>
      have hpos := (hne pos hvar).lt
      rw [Option.getD_some]
      omega
  rw [SQFuncState.addMove, if_pos hdiff]
  apply hpop.add
  · apply does_copy (executes_move (by omega))
    intro p m hp
    rw [hp.reg (fun pos hpos => (hne pos hpos).lt) (Nat.le_add_right _ _)]
    have hrest : Contains B (proj p.1.1, p.2) m := ⟨hp.1, hproj p.1.1 m.temps hp.2.1⟩
    exact hrest.setReg hB (Nat.le_add_right _ _)
  · apply merges_move rfl hpop.ends rfl hre
    · intro hlocal
      right
      cases hvar : e.localVar with
      | none =>
        rw [hvar, Option.getD_none] at hlocal
        omega
      | some pos => exact hmoved pos hvar
    · intro hle
      have hbyte : (BitVec.ofInt 8 ((base.length + n : ℕ) : ℤ)).toNat = base.length + n :=
        toNat_byte (by omega)
      simp only [SQInstruction.ofArgs, hbyte]
      exact hB.dead (operand_ge hne hle)
  · have hret : SQOpcode.MOVE ∉ retargeted := by decide
    exact hpop.ends.add_plain hret SQOpcode.noConfusion SQOpcode.noConfusion

/-! ### Code with a jump in it -/

theorem getElem?_middle {i : SQInstruction} (l rest : List SQInstruction) :
    (l ++ [i] ++ rest)[l.length]? = some i := by
  rw [List.append_assoc, List.getElem?_append_right le_rfl]
  simp

theorem getElem?_first {i : SQInstruction} (l rest : List SQInstruction) {p : ℕ}
    (hp : p < l.length) : (l ++ [i] ++ rest)[p]? = l[p]? := by
  rw [List.append_assoc, List.getElem?_append_left hp]

theorem getElem?_behind {l l' : List SQInstruction} (rest : List SQInstruction) {p : ℕ}
    (hlen : l.length = l'.length) (hp : l.length ≤ p) : (l ++ rest)[p]? = (l' ++ rest)[p]? := by
  rw [List.getElem?_append_right hp, List.getElem?_append_right (hlen ▸ hp), hlen]

theorem getCurrentPos_concat {i : SQInstruction} {l : List SQInstruction}
    (hcode : fs.instructions = l ++ [i]) : fs.getCurrentPos = l.length := by
  rw [SQFuncState.getCurrentPos, hcode, List.length_append, List.length_singleton]
  omega

theorem setArg1_middle {i : SQInstruction} {l rest : List SQInstruction} (d : ℤ)
    (hcode : fs.instructions = l ++ [i] ++ rest) : fs.setArg1 l.length d =
      { fs with instructions := l ++ [{ i with arg1 := d }] ++ rest } := by
  rw [SQFuncState.setArg1, SQFuncState.modifyInstruction, if_pos (Int.natCast_nonneg _),
    Int.toNat_natCast, hcode, modify_middle]

/-! ### Logical operators -/

variable (source) in
/-- The value of the first operand is moved to the temporary for both. -/
theorem Computes.moveFirst {A : (α × V) × World V G → Registers V G → Prop}
    (hna : ∀ pos, a.localVar = some pos → Named base pos)
    (h : Computes ops base pre A (After a.localVar (base.length + n) B)
      (Except.ok (ε := E × World V G)) .other (n + 1) ts fs)
    (hB : Below (base.length + n) B) (hlt : base.length + n < 256) :
    Computes ops base pre A (After a.localVar (base.length + n) B)
      (Except.ok (ε := E × World V G)) .other (n + 1) ts
      (fs.addMove source (base.length + n) (a.localVar.getD (base.length + n))) := by
  cases hvar : a.localVar with
  | none =>
    rw [hvar] at h
    simpa [SQFuncState.addMove] using h
  | some pos =>
    rw [hvar] at h
    have hpos := (hna pos hvar).lt
    have hdiff : base.length + n ≠ pos := by omega
    rw [SQFuncState.addMove, Option.getD_some, if_pos hdiff]
    have hi : Does (execute ops base.length)
        (.ofArgs (some source) .MOVE ((base.length + n : ℕ) : ℤ) pos 0 0)
        (Contains (After (some pos) (base.length + n) B))
        (Contains (After (some pos) (base.length + n) B)) (Except.ok (ε := E × World V G)) := by
      apply does_copy (executes_move hlt)
      intro p m hp
      have hblind := (hB.after (o := some pos)).blind (G := G) (le_refl (base.length + n))
      exact hblind p _ _ (SameBut.of_setReg (Nat.le_add_right _ _)).symm hp
    have hret : SQOpcode.MOVE ∉ retargeted := by decide
    exact h.add hi (merges_move rfl h.ends rfl (by omega)
      (fun _ => .inr Tail.noConfusion) fun hle => absurd hle (Nat.not_le.2 hpos))
      (h.ends.add_plain hret SQOpcode.noConfusion SQOpcode.noConfusion)

variable (source) in
/-- `_OP_AND` and `_OP_OR` go on with the second operand, or jump over it with the first. -/
private theorem tests_logical {op : SQOpcode} {goesOn : V → Bool} {code : List SQInstruction}
    {k f : ℕ} {d : ℤ}
    (hexec : ∀ (trg src : ℕ) (d : ℤ) (m : Registers V G), trg < 256 → src < 256 →
      execute ops base.length { SQInstruction.ofArgs (some source) op trg 0 src 0 with arg1 := d } m =
        some (.ok (if goesOn (m.reg base.length src) then (0, m)
          else (d, m.setReg base.length trg (m.reg base.length src)))))
    (hna : ∀ pos, a.localVar = some pos → Named base pos) (hB : Below (base.length + n) B)
    (hlt : base.length + n < 256)
    (hat : code[k]? = some { SQInstruction.ofArgs (some source) op ((base.length + n : ℕ) : ℤ) 0
      (a.localVar.getD (base.length + n) : ℤ) 0 with arg1 := d })
    (hf : (f : ℤ) = k + 1 + d) :
    Tests (execute ops base.length) code k (k + 1) (k + 1) f
      (Contains (After a.localVar (base.length + n) B))
      (fun y m => cond y.1 (Contains (After a.localVar (base.length + n) B) y.2 m)
        (Contains (After none (base.length + n) B)
          ((y.2.1.1, a.operand y.2.1.2 y.2.2), y.2.2) m))
      fun p => (Except.ok (goesOn (a.operand p.1.2 p.2), p) :
        Except (E × World V G) (Bool × ((α × V) × World V G))) := by
  apply Tests.of_step (d := d) hat hf
  intro p m hp
  have hreg := hp.reg (fun pos hpos => (hna pos hpos).lt) (Nat.le_add_right base.length n)
  have hstep := hexec (base.length + n) _ d m hlt (operand_lt hna hlt)
  rw [hreg] at hstep
  change ∃ m', _ ∧ execute ops base.length _ m = _
  rw [hstep]
  change ∃ m', (cond (goesOn (a.operand p.1.2 p.2)) _ _) ∧
    some (Except.ok (if goesOn (a.operand p.1.2 p.2) = true then _ else _)) = _
  cases goesOn (a.operand p.1.2 p.2) with
  | true => exact ⟨m, hp, rfl⟩
  | false => exact ⟨_, hp.outer.setReg hB (Nat.le_add_right _ _), rfl⟩

/-- `LogicalOrExp` and `LogicalAndExp` -/
theorem compiles_logical (op : SQOpcode) (goesOn : V → Bool) (hun : op ∈ unmerged)
    (hnot : op ∉ mergeable) (ha : a.Compiles ops base source) (hb : b.Compiles ops base source)
    (hexec : ∀ (trg src : ℕ) (d : ℤ) (m : Registers V G), trg < 256 → src < 256 →
      execute ops base.length { SQInstruction.ofArgs (some source) op trg 0 src 0 with arg1 := d } m =
        some (.ok (if goesOn (m.reg base.length src) then (0, m)
          else (d, m.setReg base.length trg (m.reg base.length src)))))
    (hcode : ∀ fs, e.compile source fs =
      logical source op (fun fs => b.compile source fs) (a.compile source fs))
    (heval : ∀ w, e.eval ops w = a.eval ops w >>= fun p =>
      if goesOn (a.operand p.1 p.2) then b.eval ops p.2 >>= fun q => .ok (b.operand q.1 q.2, q.2)
      else .ok (a.operand p.1 p.2, p.2))
    (hnone : e.localVar = none) (hother : ∀ τ, e.tail τ = .other)
    (hfits : ∀ τ, e.Fits (Named base) τ → a.Fits (Named base) τ ∧ b.Fits (Named base) .other)
    (hdepth : e.depth = max a.depth (1 + b.depth)) : e.Compiles ops base source := by
  intro σ α pre A B D τ n ts fs hfit h hB hlt
  rw [hdepth] at hlt
  have hna := (hfits τ hfit).1.named
  have hnb := (hfits τ hfit).2.named
  have hfirst := (ha (hfits τ hfit).1 h hB (by omega)).1
  have hpush := (hfirst.popTarget hna).pushTarget
  have htop := hpush.allocated.topTarget
  generalize hfsp : (a.compile source fs).popTarget.pushTarget none = fsp at hpush htop
  generalize hi : SQInstruction.ofArgs (some source) op ((base.length + n : ℕ) : ℤ) 0
    (a.localVar.getD (base.length + n) : ℤ) 0 = i
  have hopi : i.op = op := by
    rw [← hi]
    rfl
  have hcode₁ : (fsp.addInstruction i).instructions = fsp.instructions ++ [i] :=
    instructions_unmerged (hopi ▸ hun)
  have hstart : Computes ops base (fsp.addInstruction i).instructions
      (Contains (After a.localVar (base.length + n) B)) (After a.localVar (base.length + n) B)
      (Except.ok (ε := E × World V G)) .other (n + 1) ((base.length + n) :: ts)
      (fsp.addInstruction i) :=
    .start_after (hpush.allocated.addInstruction i) hcode₁ (hopi ▸ hnot)
  have hlo := operandTemps_le a.localVar
  have hBa : Below (base.length + (n + 1)) (After a.localVar (base.length + n) B) :=
    (below_after _ hB).mono (by omega)
  have hsecond := (hb (hfits τ hfit).2
    (hstart.moveFirst source hna hB (by omega)) hBa (by omega)).1.snoozeOpt
  have hvalue := hsecond.moveTo source (B := B) Prod.fst (fun y t hy => hy.1) hnb
    (fun _ _ => Tail.noConfusion) hB (by omega)
  generalize hfs₄ : ((b.compile source ((fsp.addInstruction i).addMove source (base.length + n)
    (a.localVar.getD (base.length + n)))).snoozeOpt.popTarget.addMove source (base.length + n)
      (b.localVar.getD (base.length + (n + 1)))) = fs₄ at hvalue
  obtain ⟨rest, hrest⟩ := hvalue.emitted.isPrefix
  have hlen : (fsp.addInstruction i).instructions.length = fsp.instructions.length + 1 := by
    rw [hcode₁, List.length_append, List.length_singleton]
  have hlen₄ : fs₄.instructions.length = fsp.instructions.length + 1 + rest.length := by
    rw [← hrest, List.length_append, hlen]
  have hpos := getCurrentPos_concat hcode₁
  generalize hd : fs₄.snoozeOpt.getCurrentPos - fsp.instructions.length = d
  have hcode₄ : fs₄.snoozeOpt.instructions = fsp.instructions ++ [i] ++ rest := by
    rw [← hcode₁]
    exact hrest.symm
  have hset := setArg1_middle d hcode₄
  have hfinal : e.compile source fs = { fs₄.snoozeOpt with
      instructions := fsp.instructions ++ [{ i with arg1 := d }] ++ rest } := by
    rw [hcode, logical]
    simp only [hfirst.allocated.topTarget, hfsp, htop, SQFuncState.emit, hi,
      hsecond.allocated.topTarget, hfs₄, hpos, hd, hset]
  generalize hfs₅ : ({ fs₄.snoozeOpt with
    instructions := fsp.instructions ++ [{ i with arg1 := d }] ++ rest } : SQFuncState) = fs₅ at hfinal
  have hcode₅ : fs₅.instructions = fsp.instructions ++ [{ i with arg1 := d }] ++ rest := by
    rw [← hfs₅]
  have hlen₅ : fs₅.instructions.length = fs₄.instructions.length := by
    rw [hcode₅, hlen₄, List.length_append, List.length_append, List.length_singleton]
  have hat : fs₅.instructions[fsp.instructions.length]? = some { i with arg1 := d } := by
    rw [hcode₅]
    exact getElem?_middle _ _
  have hbefore : ∀ p, pre.length ≤ p → p < fsp.instructions.length →
      fs₅.instructions[p]? = fsp.instructions[p]? := by
    intro p _ hp
    rw [hcode₅]
    exact getElem?_first _ _ hp
  have hafter : ∀ p, (fsp.addInstruction i).instructions.length ≤ p → p < fs₄.instructions.length →
      fs₅.instructions[p]? = fs₄.instructions[p]? := by
    intro p hp _
    rw [hcode₅, ← hrest]
    refine (getElem?_behind rest ?_ hp).symm
    rw [hlen, List.length_append, List.length_singleton]
  have htest := tests_logical source hexec hna hB (by omega) (hi ▸ hat)
    (f := fs₄.instructions.length) (by
    rw [← hd, SQFuncState.getCurrentPos]
    change _ = (fsp.instructions.length : ℤ) + 1 +
      ((fs₄.instructions.length : ℤ) - 1 - fsp.instructions.length)
    omega)
  have hsecond' := hvalue.emitted.implements.congr hafter
  rw [hlen] at hsecond'
  have hsame : Implements (execute ops base.length) fs₅.instructions fs₄.instructions.length
      fs₄.instructions.length (fun y : (α × V) × World V G =>
        Contains (After none (base.length + n) B) ((y.1.1, a.operand y.1.2 y.2), y.2))
      (Contains (After none (base.length + n) B))
      fun p : (α × V) × World V G => (Except.ok ((p.1.1, a.operand p.1.2 p.2), p.2) :
        Except (E × World V G) ((α × V) × World V G)) :=
    fun p m hp => ⟨m, hp, .here _ _⟩
  have hle₄ : fsp.instructions.length + 1 ≤ fs₄.instructions.length := by omega
  have hbranch := htest.branch hsecond' hsame (Nat.le_succ _)
    ((Nat.le_succ _).trans hle₄) hle₄
  have hfirst' := hpush.emitted.implements.congr hbefore
  have hall := hfirst'.trans hbranch hpush.emitted.isPrefix.length_le ((Nat.le_succ _).trans hle₄)
  rw [← hlen₅] at hall
  have hprefix : pre <+: fs₅.instructions := by
    rw [hcode₅, List.append_assoc]
    exact hpush.emitted.isPrefix.trans (List.prefix_append _ _)
  have hmerging : ¬fs₅.Merging := by
    rw [← hfs₅]
    exact fs₄.not_merging_snoozeOpt
  have hallocated : fs₅.Allocated base (n + 1) ((base.length + n) :: ts) := by
    rw [← hfs₅]
    exact hvalue.allocated.of_eq rfl rfl
  have hcompiled : Computes ops base pre A (After none (base.length + n) B) _ .other (n + 1)
      ((base.length + n) :: ts) fs₅ :=
    ⟨hallocated, .of_implements hprefix hall hmerging, fun hm => absurd hm hmerging⟩
  rw [← hfinal] at hcompiled
  apply Expression.Compiles.intro hnone (hother τ) hcompiled
  intro x
  cases D x with
  | error x => rfl
  | ok p =>
    simp only [Expression.run, heval, bind, Except.bind]
    cases a.eval ops p.2 with
    | error x => rfl
    | ok q =>
      dsimp only [Except.map]
      cases goesOn (a.operand q.1 q.2) with
      | false => rfl
      | true =>
        simp only [if_true]
        cases b.eval ops q.2 <;> rfl

theorem compiles_and (ha : a.Compiles ops base source) (hb : b.Compiles ops base source) :
    (Expression.and a b).Compiles ops base source := by
  apply compiles_logical (e := .and a b) .AND (fun v => !ops.isFalse v) (by decide) (by decide)
    ha hb _ (fun _ => rfl) _ rfl (fun _ => rfl) (fun _ h => h) rfl
  · intro trg src d m htrg hsrc
    simp only [execute, SQInstruction.computation, SQInstruction.ofArgs, toNat_byte htrg,
      toNat_byte hsrc]
    cases ops.isFalse (m.reg base.length src) <;> rfl
  · intro w
    simp only [Expression.eval, bind, Except.bind]
    cases a.eval ops w with
    | error x => rfl
    | ok p =>
      dsimp only
      cases ops.isFalse (a.operand p.1 p.2) with
      | true => rfl
      | false =>
        simp only [Bool.not_false, Bool.false_eq_true, if_true, if_false]
        cases b.eval ops p.2 <;> rfl

theorem compiles_or (ha : a.Compiles ops base source) (hb : b.Compiles ops base source) :
    (Expression.or a b).Compiles ops base source := by
  apply compiles_logical (e := .or a b) .OR ops.isFalse (by decide) (by decide) ha hb
    _ (fun _ => rfl) _ rfl (fun _ => rfl) (fun _ h => h) rfl
  · intro trg src d m htrg hsrc
    simp only [execute, SQInstruction.computation, SQInstruction.ofArgs, toNat_byte htrg,
      toNat_byte hsrc]
    cases ops.isFalse (m.reg base.length src) <;> rfl
  · intro w
    simp only [Expression.eval, bind, Except.bind]
    cases a.eval ops w with
    | error x => rfl
    | ok p =>
      dsimp only
      cases ops.isFalse (a.operand p.1 p.2) with
      | false => rfl
      | true =>
        simp only [if_true]
        cases b.eval ops p.2 <;> rfl

/-! ### Conditional expressions -/

/-- The code of a condition with the jump after it, which ends in `j`, and is in use with another
distance -/
structure Jumps (ops : Operations V E G) (base : List SQLocalVarInfo) (pre : List SQInstruction)
    (A : σ → Registers V G → Prop) (B : α → (ℕ → V) → Prop)
    (D : σ → Except (E × World V G) (Bool × (α × World V G))) (rest : List SQInstruction)
    (j : SQInstruction) : Prop where
  isPrefix : pre <+: rest
  unmerged : j.op ∉ mergeable
  tests : ∀ (tail : List SQInstruction) (d : ℤ) (f : ℕ), (f : ℤ) = rest.length + 1 + d →
    Tests (execute ops base.length) (rest ++ [{ j with arg1 := d }] ++ tail) pre.length
      (rest.length + 1) (rest.length + 1) f A (fun y m => Contains B y.2 m) D

variable (source) in
/-- `_OP_JZ` after the code of a condition -/
theorem jumps_pushed {D : σ → Except (E × World V G) (α × World V G)}
    (hnc : ∀ pos, c.localVar = some pos → Named base pos) (hlt : base.length + n < 256)
    (hemitted : Emitted ops base.length pre A (Contains (After c.localVar (base.length + n) B))
      (fun x => D x >>= c.run ops) fs) :
    Jumps ops base pre A B (fun x => (D x >>= c.run ops) >>= fun p =>
        .ok (!ops.isFalse (c.operand p.1.2 p.2), (p.1.1, p.2)))
      fs.instructions
      (.ofArgs (some source) .JZ (c.localVar.getD (base.length + n) : ℤ) 0 0 0) := by
  have hnot : SQOpcode.JZ ∉ mergeable := by decide
  refine ⟨hemitted.isPrefix, hnot, fun tail d f hf => ?_⟩
  have hfirst := hemitted.implements.congr
    (fun p _ hp => getElem?_first (i := { SQInstruction.ofArgs (some source) .JZ
      (c.localVar.getD (base.length + n) : ℤ) 0 0 0 with arg1 := d }) fs.instructions tail hp)
  apply hfirst.tests _ hemitted.isPrefix.length_le (Nat.le_succ _)
  apply Tests.of_step (d := d) (getElem?_middle _ _) hf
  intro p m hp
  have hrc : c.localVar.getD (base.length + n) < 256 := operand_lt hnc hlt
  have hreg := hp.reg (fun pos hpos => (hnc pos hpos).lt) (Nat.le_add_right base.length n)
  refine ⟨m, hp.outer, ?_⟩
  simp only [execute, SQInstruction.computation, SQInstruction.ofArgs, toNat_byte hrc, hreg]
  by_cases hfalse : ops.isFalse (c.localVar.elim p.1.2 p.2.1) = true <;>
    simp [Expression.operand, hfalse]

private theorem execute_cmp {i : SQInstruction} {N : ℕ} (h : i.op = .CMP) (m : Registers V G) :
    execute ops N i m = some ((Computation.run ops N m (.apply (.binary (.cmp i.arg3))
      [.reg i.arg2.toNat, .reg i.arg1.toNat])).map fun p => (0, p.2.setReg N i.arg0.toNat p.1)) := by
  have hcomp : i.computation = some (.apply (.binary (.cmp i.arg3))
      [.reg i.arg2.toNat, .reg i.arg1.toNat]) := by
    simp [SQInstruction.computation, SQInstruction.binary, h]
  simp only [execute, hcomp]
  generalize Computation.run ops N m _ = r
  cases r <;> rfl

private theorem execute_jcmp {i : SQInstruction} {N : ℕ} (hpos : 0 ≤ i.arg1) (hmax : i.arg1 < 0xFF)
    (d : ℤ) (m : Registers V G) :
    execute ops N { i with op := .JCMP, arg0 := .ofInt 8 i.arg1, arg1 := d } m =
      some ((Computation.run ops N m (.apply (.binary (.cmp i.arg3))
        [.reg i.arg2.toNat, .reg i.arg1.toNat])).map fun p =>
          (if ops.isFalse p.1 then d else 0, p.2)) := by
  have hbyte : (BitVec.ofInt 8 i.arg1).toNat = i.arg1.toNat := by
    obtain ⟨r, hr⟩ := Int.eq_ofNat_of_zero_le hpos
    rw [hr]
    exact toNat_byte (by omega)
  simp only [execute, SQInstruction.computation, hbyte]
  generalize Computation.run ops N m _ = r
  cases r <;> rfl

/-- `_OP_JCMP` in place of the comparison of a condition -/
theorem jumps_merged {D : σ → Except (E × World V G) (α × World V G)} {pi : SQInstruction}
    (hnone : c.localVar = none) (hop : pi.op = .CMP) (hpos : 0 ≤ pi.arg1) (hmax : pi.arg1 < 0xFF)
    (harg0 : pi.arg0.toNat = base.length + n) (hB : Below (base.length + n) B)
    (hm : fs.Merging) (hpi : fs.instructions.getLast? = some pi)
    (hemitted : Emitted ops base.length pre A (Contains (After c.localVar (base.length + n) B))
      (fun x => D x >>= c.run ops) fs) (arg1 : ℤ) :
    Jumps ops base pre A B (fun x => (D x >>= c.run ops) >>= fun p =>
        .ok (!ops.isFalse (c.operand p.1.2 p.2), (p.1.1, p.2)))
      fs.instructions.dropLast { pi with op := .JCMP, arg0 := .ofInt 8 pi.arg1, arg1 := arg1 } := by
  have hnot : SQOpcode.JCMP ∉ mergeable := by decide
  have hcmp : pi.op ∈ mergeable := by
    rw [hop]
    decide
  obtain ⟨rest, ρ, M, D₀, F, hcode, hpre, himpl, hdoes, hD⟩ := hemitted.last hm pi hpi hcmp
  have hdrop : fs.instructions.dropLast = rest := by rw [hcode, List.dropLast_concat]
  rw [hdrop]
  refine ⟨hpre, hnot, fun tail d f hf => ?_⟩
  have heq : (fun x => (D x >>= c.run ops) >>= fun p => (Except.ok
      (!ops.isFalse (c.operand p.1.2 p.2), (p.1.1, p.2)) : Except (E × World V G) (Bool × (α × World V G)))) =
      fun x => D₀ x >>= fun z => F z >>= fun p =>
        .ok (!ops.isFalse (c.operand p.1.2 p.2), (p.1.1, p.2)) := by
    funext x
    rw [hD]
    exact bind_assoc _ _ _
  rw [heq]
  have hfirst := himpl.congr (fun p _ hp => getElem?_first
    (i := { pi with op := .JCMP, arg0 := .ofInt 8 pi.arg1, arg1 := d }) rest tail hp)
  apply hfirst.tests _ hpre.length_le (Nat.le_succ _)
  apply Tests.of_step (d := d) (getElem?_middle _ _) hf
  intro z m hz
  have hpair := hdoes z m hz
  rw [execute_cmp hop, harg0] at hpair
  simp only [execute_jcmp hpos hmax]
  generalize Computation.run ops base.length m _ = r at hpair
  cases hF : F z with
  | error x =>
    rw [hF] at hpair
    cases r with
    | error x' =>
      cases hpair
      rfl
    | ok p => cases hpair
  | ok y =>
    rw [hF] at hpair
    obtain ⟨m', hafter, hstep⟩ := hpair
    cases r with
    | error x => cases hstep
    | ok p =>
      cases hstep
      have hle := Nat.le_add_right base.length n
      have hstored := hafter.2.2 hnone
      simp only [Registers.setReg_of_le hle, Function.update_self] at hstored
      have hrest := hB.blind (G := G) le_rfl (y.1.1, y.2) _ _ (SameBut.of_setReg hle)
        ⟨hafter.1, hafter.2.1⟩
      refine ⟨p.2, hrest, ?_⟩
      simp only [Expression.operand, hnone, Option.elim_none, ← hstored]
      by_cases hfalse : ops.isFalse p.1 = true <;> simp [hfalse, Except.map]

variable (source) in
/-- The code of a condition and the jump that the optimizer makes of `_OP_JZ` -/
theorem jumps_emitted {D : σ → Except (E × World V G) (α × World V G)} (hbase : 0 < base.length)
    (hfit : c.Fits (Named base) τ) (htested : c.Tested τ) (hB : Below (base.length + n) B)
    (hlt : base.length + n < 256)
    (h : Computes ops base pre A (After c.localVar (base.length + n) B)
      (fun x => D x >>= c.run ops) (c.tail τ) n ts fs)
    (hcompares : fs.Compares c.localVar (base.length + n)) :
    ∃ rest j, (fs.addInstruction (.ofArgs (some source) .JZ
        (c.localVar.getD (base.length + n) : ℤ) 0 0 0)).instructions = rest ++ [j] ∧
      Jumps ops base pre A B (fun x => (D x >>= c.run ops) >>= fun p =>
        .ok (!ops.isFalse (c.operand p.1.2 p.2), (p.1.1, p.2))) rest j := by
  have hnc := hfit.named
  have hpushed := jumps_pushed source hnc hlt h.emitted
  generalize hi : SQInstruction.ofArgs (some source) .JZ (c.localVar.getD (base.length + n) : ℤ)
    0 0 0 = i at hpushed
  have hrc : c.localVar.getD (base.length + n) < 256 := operand_lt hnc hlt
  have hzero : i.arg0 ≠ i.arg3 := by
    rw [← hi]
    intro heq
    have hbyte : BitVec.ofNat 8 (c.localVar.getD (base.length + n)) = 0#8 := by
      rw [← BitVec.ofInt_natCast]
      exact heq
    rw [byte_eq_zero hrc, operand_eq_zero hnc hbase] at hbyte
    exact (htested 0 hbyte).1 rfl
  have hop : i.op = .JZ := by
    rw [← hi]
    rfl
  unfold SQFuncState.addInstruction
  split
  case h_2 => exact ⟨_, i, rfl, hpushed⟩
  case h_1 pi hpi =>
    split_ifs with hm
    case neg => exact ⟨_, i, rfl, hpushed⟩
    have hfuse : fs.fuse pi i = if pi.op = .CMP ∧ pi.arg1 < 0xFF then
        .merge { pi with op := .JCMP, arg0 := .ofInt 8 pi.arg1, arg1 := i.arg1 } true
        else .keep pi i := by
      simp only [SQFuncState.fuse, hop, if_neg hzero]
    rw [hfuse]
    by_cases hmerge : pi.op = .CMP ∧ pi.arg1 < 0xFF
    · rw [if_pos hmerge]
      have hcmp := (h.ends hm pi hpi).1 hmerge.1
      have hnone : c.localVar = none := by
        cases hvar : c.localVar with
        | none => rfl
        | some pos => exact absurd hcmp.1 (htested pos hvar).2
      exact ⟨_, _, rfl, jumps_merged hnone hmerge.1 hcmp.2 hmerge.2
        (hcompares hnone hm pi hpi hmerge.1) hB hm hpi h.emitted _⟩
    · rw [if_neg hmerge]
      refine ⟨_, i, ?_, hpushed⟩
      calc fs.instructions.dropLast ++ [pi, i]
          = (fs.instructions.dropLast ++ [pi]) ++ [i] := by simp
        _ = fs.instructions ++ [i] := by rw [List.dropLast_append_getLast? pi hpi]

/-- Both branches of a condition; behind the first there is a jump over the second. -/
private theorem Jumps.branches {ρ : Type} {M : ρ → Registers V G → Prop}
    {D : σ → Except (E × World V G) (Bool × (α × World V G))}
    {F F' : α × World V G → Except (E × World V G) ρ} {i j : SQInstruction}
    {rest first second : List SQInstruction} {d d' : ℤ} (hjumps : Jumps ops base pre A B D rest j)
    (hfirst : Implements (execute ops base.length) (rest ++ [j] ++ first) (rest ++ [j]).length
      (rest ++ [j] ++ first).length (Contains B) M F)
    (hsecond : Implements (execute ops base.length) (rest ++ [j] ++ first ++ [i] ++ second)
      (rest ++ [j] ++ first ++ [i]).length (rest ++ [j] ++ first ++ [i] ++ second).length
      (Contains B) M F')
    (hstep : ∀ m : Registers V G,
      execute ops base.length { i with arg1 := d' } m = some (.ok (d', m)))
    (hd : d = first.length + 1) (hd' : d' = second.length) :
    Implements (execute ops base.length)
      (rest ++ [{ j with arg1 := d }] ++ first ++ [{ i with arg1 := d' }] ++ second) pre.length
      (rest ++ [{ j with arg1 := d }] ++ first ++ [{ i with arg1 := d' }] ++ second).length A M
      fun x => D x >>= fun y => if y.1 then F y.2 else F' y.2 := by
  have hlen : (rest ++ [{ j with arg1 := d }] ++ first).length = (rest ++ [j] ++ first).length := by
    simp
  have hlen' : (rest ++ [{ j with arg1 := d }] ++ first ++ [{ i with arg1 := d' }]).length =
      (rest ++ [j] ++ first ++ [i]).length := by simp
  have htest := hjumps.tests (first ++ [{ i with arg1 := d' }] ++ second) d
    (rest ++ [j] ++ first ++ [i]).length (by
      rw [hd]
      simp only [List.length_append, List.length_singleton]
      omega)
  have hcode : rest ++ [{ j with arg1 := d }] ++ (first ++ [{ i with arg1 := d' }] ++ second) =
      rest ++ [{ j with arg1 := d }] ++ first ++ [{ i with arg1 := d' }] ++ second := by simp
  rw [hcode] at htest
  generalize hall : rest ++ [{ j with arg1 := d }] ++ first ++ [{ i with arg1 := d' }] ++ second =
    all at htest
  have hbefore : ∀ p, (rest ++ [j]).length ≤ p → p < (rest ++ [j] ++ first).length →
      all[p]? = (rest ++ [j] ++ first)[p]? := by
    intro p hp hp'
    rw [← hall, getElem?_first _ _ (hlen ▸ hp')]
    exact (getElem?_behind first (by simp) hp).symm
  have hbehind : ∀ p, (rest ++ [j] ++ first ++ [i]).length ≤ p →
      p < (rest ++ [j] ++ first ++ [i] ++ second).length →
        all[p]? = (rest ++ [j] ++ first ++ [i] ++ second)[p]? := by
    intro p hp _
    rw [← hall]
    exact (getElem?_behind second hlen'.symm hp).symm
  have hjump : all[(rest ++ [j] ++ first).length]? = some { i with arg1 := d' } := by
    rw [← hall, ← hlen]
    exact getElem?_middle _ _
  have hend : all.length = (rest ++ [j] ++ first ++ [i] ++ second).length := by simp [← hall]
  have hover := (hfirst.congr hbefore).jump (e := all.length) hjump hstep (by
    rw [hend, hd']
    simp only [List.length_append, List.length_singleton]
    omega) (by simp) (by simp [← hall])
  have hother := hsecond.congr hbehind
  rw [← hend] at hother
  have hprelen := hjumps.isPrefix.length_le
  have hstart : (rest ++ [j]).length = rest.length + 1 := by simp
  rw [hstart] at hover
  apply htest.branch hover hother
  · exact hprelen.trans (Nat.le_succ _)
  · simp only [List.length_append]
    omega
  · rw [hend]
    simp only [List.length_append, List.length_singleton]
    omega

private theorem setArg1_branches {fs₁ fs₂ : SQFuncState} {i j : SQInstruction}
    {rest first second : List SQInstruction} (d d' : ℤ) (h₁ : fs₁.instructions = rest ++ [j])
    (h₂ : fs₂.instructions = rest ++ [j] ++ first ++ [i])
    (h : fs.instructions = rest ++ [j] ++ first ++ [i] ++ second) :
    (fs.setArg1 fs₂.getCurrentPos d').setArg1 fs₁.getCurrentPos d = { fs with instructions :=
      rest ++ [{ j with arg1 := d }] ++ first ++ [{ i with arg1 := d' }] ++ second } := by
  have hcode : rest ++ [j] ++ first ++ [{ i with arg1 := d' }] ++ second =
      rest ++ [j] ++ (first ++ [{ i with arg1 := d' }] ++ second) := by simp
  rw [getCurrentPos_concat h₁, getCurrentPos_concat h₂, setArg1_middle d' h,
    setArg1_middle d hcode]
  simp

theorem compiles_conditional (hbase : 0 < base.length) (hc : c.Compiles ops base source)
    (ha : a.Compiles ops base source) (hb : b.Compiles ops base source) :
    (Expression.conditional c a b).Compiles ops base source := by
  intro σ α pre A B D τ n ts fs hfit h hB hlt
  simp only [Expression.depth] at hlt
  obtain ⟨⟨hfc, htested⟩, ⟨hfa, hamoved⟩, hfb, hbmoved⟩ := hfit
  have hB' : Below (base.length + (n + 1)) B := hB.mono (by omega)
  obtain ⟨hcond, hcompares⟩ := hc hfc h hB (by omega)
  have hpop := hcond.popTarget hfc.named
  obtain ⟨rest, j, hcode₁, hjumps⟩ := jumps_emitted source hbase hfc htested hB
    (by omega) hpop hcompares
  generalize hfs₁ : (c.compile source fs).popTarget.addInstruction (.ofArgs (some source) .JZ
    (c.localVar.getD (base.length + n) : ℤ) 0 0 0) = fs₁ at hcode₁
  have hallocated₁ : (fs₁.pushTarget none).Allocated base (n + 1) ((base.length + n) :: ts) := by
    rw [← hfs₁]
    exact (hpop.allocated.addInstruction _).pushTarget
  have hfirst := (ha hfa (.start_after hallocated₁ hcode₁ hjumps.unmerged) hB' (by omega)).1
  have hvalue := hfirst.moveTo source (B := B) id (fun _ _ hy => hy) hfa.named hamoved hB
    (by omega)
  generalize hfs₂ : (a.compile source (fs₁.pushTarget none)).popTarget.addMove source
    (base.length + n) (a.localVar.getD (base.length + (n + 1))) = fs₂ at hvalue
  have hjmp : SQOpcode.JMP ∈ unmerged := by decide
  generalize hi : SQInstruction.ofArgs (some source) .JMP 0 0 0 0 = i
  have hopi : i.op = .JMP := by
    rw [← hi]
    rfl
  have hcode₃ : (fs₂.addInstruction i).instructions = fs₂.instructions ++ [i] :=
    instructions_unmerged (hopi ▸ hjmp)
  generalize hfs₃ : fs₂.addInstruction i = fs₃ at hcode₃
  have hallocated₃ : fs₃.Allocated base (n + 1) ((base.length + n) :: ts) := by
    rw [← hfs₃]
    exact hvalue.allocated.addInstruction _
  have hnot : SQOpcode.JMP ∉ mergeable := by decide
  have hsecond := (hb hfb (.start_after hallocated₃ hcode₃ (hopi ▸ hnot)) hB' (by omega)).1
  have hvalue' := hsecond.moveTo source (B := B) id (fun _ _ hy => hy) hfb.named hbmoved hB
    (by omega)
  generalize hfs₄ : (b.compile source fs₃).popTarget.addMove source
    (base.length + n) (b.localVar.getD (base.length + (n + 1))) = fs₄ at hvalue'
  obtain ⟨first, hcode₂⟩ := hvalue.emitted.isPrefix
  obtain ⟨second, hcode₄⟩ := hvalue'.emitted.isPrefix
  have himplements := hvalue.emitted.implements
  have himplements' := hvalue'.emitted.implements
  have hat₁ : (fs₁.pushTarget none).instructions = rest ++ [j] := hcode₁
  rw [hat₁] at hcode₂ himplements
  rw [← hcode₂] at hcode₃ himplements
  rw [hcode₃] at hcode₄ himplements'
  rw [← hcode₄] at himplements'
  generalize hd' : fs₄.getCurrentPos - fs₃.getCurrentPos = d'
  generalize hd : fs₂.getCurrentPos - fs₁.getCurrentPos + 1 = d
  have hset := setArg1_branches d d' hcode₁ hcode₃ hcode₄.symm
  have hstep : ∀ m : Registers V G,
      execute ops base.length { i with arg1 := d' } m = some (.ok (d', m)) := by
    rw [← hi]
    exact fun m => rfl
  have hlen : d = first.length + 1 := by
    rw [← hd, getCurrentPos_concat hcode₁, SQFuncState.getCurrentPos, ← hcode₂]
    simp only [List.length_append, List.length_singleton]
    omega
  have hlen' : d' = second.length := by
    rw [← hd', getCurrentPos_concat hcode₃, SQFuncState.getCurrentPos, ← hcode₄]
    simp only [List.length_append, List.length_singleton]
    omega
  have hall := hjumps.branches himplements himplements' hstep hlen hlen'
  generalize hfs₅ : ({ fs₄ with instructions := rest ++ [{ j with arg1 := d }] ++ first ++
    [{ i with arg1 := d' }] ++ second } : SQFuncState) = fs₅ at hset
  have hcode₅ : fs₅.instructions = rest ++ [{ j with arg1 := d }] ++ first ++
      [{ i with arg1 := d' }] ++ second := by
    rw [← hfs₅]
  rw [← hcode₅] at hall
  have hfinal : (Expression.conditional c a b).compile source fs = fs₅.snoozeOpt := by
    simp only [Expression.compile, conditional, hcond.allocated.topTarget, SQFuncState.emit, hfs₁,
      hallocated₁.topTarget, hfirst.allocated.topTarget, hfs₂, hi, hfs₃,
      hsecond.allocated.topTarget, hfs₄, hd, hd', hset]
  have hprefix : pre <+: fs₅.snoozeOpt.instructions := by
    have hrest : rest <+: fs₅.instructions := by
      simp only [hcode₅, List.append_assoc]
      exact List.prefix_append _ _
    exact hjumps.isPrefix.trans hrest
  have hallocated : fs₅.snoozeOpt.Allocated base (n + 1) ((base.length + n) :: ts) := by
    rw [← hfs₅]
    exact hvalue'.allocated.of_eq rfl rfl
  have hcompiled : Computes ops base pre A (After none (base.length + n) B) _ .other (n + 1)
      ((base.length + n) :: ts) fs₅.snoozeOpt :=
    ⟨hallocated, .of_implements hprefix hall fs₅.not_merging_snoozeOpt,
      fun hm => absurd hm fs₅.not_merging_snoozeOpt⟩
  rw [← hfinal] at hcompiled
  apply Expression.Compiles.intro rfl rfl hcompiled
  intro x
  cases D x with
  | error x => rfl
  | ok p =>
    simp only [Expression.run, Expression.eval, bind, Except.bind]
    cases c.eval ops p.2 with
    | error x => rfl
    | ok q =>
      dsimp only [Except.map]
      cases ops.isFalse (c.operand q.1 q.2) with
      | false =>
        simp only [Bool.not_false, Bool.false_eq_true, if_true, if_false]
        cases a.eval ops q.2 <;> rfl
      | true =>
        simp only [Bool.not_true, Bool.false_eq_true, if_true, if_false]
        cases b.eval ops q.2 <;> rfl

end Branches

end Squirt.SQCompiler
