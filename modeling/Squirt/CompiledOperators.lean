import Squirt.OperandTargets

/-!
# The code of operators

After the code of the operands comes the instruction of the operator. Their targets are popped
first, so that the value may take the place of an operand.
-/

namespace Squirt.SQCompiler

open CodeBlocks

section Computes

variable {V E G : Type} (ops : Operations V E G) (base : List SQLocalVarInfo) {σ α β : Type}

/-- The code after `pre` does what `D` says, and then the temporaries are as `B` says. `k` of them
are in use. -/
structure Computes (pre : List SQInstruction) (A : σ → Registers V G → Prop)
    (B : α → (ℕ → V) → Prop) (D : σ → Except (E × World V G) (α × World V G)) (τ : Tail) (k : ℕ)
    (ts : List ℕ) (fs : SQFuncState) : Prop where
  allocated : fs.Allocated base k ts
  emitted : Emitted ops base.length pre A (Contains B) D fs
  ends : fs.Ends base.length τ

variable {ops base} {pre : List SQInstruction} {A : σ → Registers V G → Prop}
  {B : α → (ℕ → V) → Prop} {C : β → (ℕ → V) → Prop}
  {D D' : σ → Except (E × World V G) (α × World V G)}
  {F : α × World V G → Except (E × World V G) (β × World V G)} {τ τ' : Tail} {k t pos : ℕ}
  {ts : List ℕ} {fs : SQFuncState} {i : SQInstruction} {o : Option ℕ}

namespace Computes

theorem congr (h : Computes ops base pre A B D τ k ts fs) (hD : ∀ x, D x = D' x) :
    Computes ops base pre A B D' τ k ts fs :=
  ⟨h.allocated, h.emitted.congr hD, h.ends⟩

theorem map (h : Computes ops base pre A B D τ k ts fs) (g : α → β)
    (hg : ∀ y t, B y t → C (g y) t) :
    Computes ops base pre A C (fun x => (D x).map fun p => (g p.1, p.2)) τ k ts fs :=
  ⟨h.allocated, h.emitted.map _ fun p _ hp => ⟨hp.1, hg p.1 _ hp.2⟩, h.ends⟩

theorem popTarget
    (h : Computes ops base pre A B D τ (k + operandTemps o) (o.getD (base.length + k) :: ts) fs)
    (ho : ∀ pos, o = some pos → Named base pos) :
    Computes ops base pre A B D τ k ts fs.popTarget :=
  ⟨h.allocated.popTarget ho, h.emitted.of_eq rfl fun hm => hm, h.ends⟩

theorem pushTarget (h : Computes ops base pre A B D τ k ts fs) :
    Computes ops base pre A B D τ (k + 1) ((base.length + k) :: ts) (fs.pushTarget none) :=
  ⟨h.allocated.pushTarget, h.emitted.of_eq rfl fun hm => hm, h.ends⟩

theorem pushLocal (pos : ℕ) (h : Computes ops base pre A B D τ k ts fs) :
    Computes ops base pre A B D τ k (pos :: ts) (fs.pushTarget (some pos)) :=
  ⟨h.allocated.pushLocal, h.emitted.of_eq rfl fun hm => hm, h.ends⟩

/-- `AddInstruction` -/
theorem add (h : Computes ops base pre A B D τ k ts fs)
    (hi : Does (execute ops base.length) i (Contains B) (Contains C) F)
    (hmerges : fs.Merges ops base.length i (Contains (G := G) C))
    (hends : (fs.addInstruction i).Ends base.length τ') :
    Computes ops base pre A C (fun x => D x >>= F) τ' k ts (fs.addInstruction i) :=
  ⟨h.allocated.addInstruction i, h.emitted.add hi hmerges, hends⟩

end Computes

end Computes

/-! ## An operator whose value is stored in a temporary -/

section Stores

variable {V E G : Type} {ops : Operations V E G} {base : List SQLocalVarInfo} {σ α β : Type}
  {pre : List SQInstruction} {A : σ → Registers V G → Prop} {B : α → (ℕ → V) → Prop}
  {B' : β → (ℕ → V) → Prop} {τ τ' : Tail} {k n N source : ℕ} {ts : List ℕ} {fs : SQFuncState}
  {i : SQInstruction} {o oa ob : Option ℕ} {op : SQOpcode} {operation : Operation}
  {xs : List Operand} {a1 a2 a3 : ℤ}

theorem toNat_byte (h : n < 256) : (BitVec.ofInt 8 (n : ℤ)).toNat = n := by
  simp [Nat.mod_eq_of_lt h]

theorem does_store (proj : β → α) {vals : β × World V G → List V}
    (hcomp : i.computation = some (.apply operation xs)) (harg0 : i.arg0.toNat = n) (hn : N ≤ n)
    (hB : Below n B) (hproj : ∀ y t, B' y t → B (proj y) t)
    (hvals : ∀ p m, Contains B' p m → xs.map (·.value ops N m) = vals p) :
    Does (execute ops N) i (Contains B') (Contains (After none n B)) fun p =>
      (ops.apply operation (vals p) p.2).map fun q => ((proj p.1, q.1), q.2) := by
  apply does_apply (executes_apply hcomp) hvals
  intro p m q hp
  rw [harg0]
  have hrest : Contains B (proj p.1, q.2) ({ m with world := q.2 } : Registers V G) :=
    ⟨rfl, hproj p.1 m.temps hp.2⟩
  exact hrest.setReg hB hn

theorem emitPush_eq (h : fs.Allocated base k ts) : fs.emitPush source op a1 a2 a3 =
    (fs.pushTarget none).addInstruction
      (.ofArgs (some source) op ((base.length + k : ℕ) : ℤ) a1 a2 a3) := by
  rw [SQFuncState.emitPush, h.pushTarget.topTarget]
  rfl

theorem instructions_unmerged (h : i.op ∈ unmerged) :
    (fs.addInstruction i).instructions = fs.instructions ++ [i] := by
  unfold SQFuncState.addInstruction
  split
  case h_2 => rfl
  case h_1 pi hpi =>
    rw [fuse_unmerged h]
    split_ifs
    · calc fs.instructions.dropLast ++ [pi, i]
          = (fs.instructions.dropLast ++ [pi]) ++ [i] := by simp
        _ = fs.instructions ++ [i] := by rw [List.dropLast_append_getLast? pi hpi]
    · rfl

theorem instructions_emitPush (h : fs.Allocated base k ts) (hop : op ∈ unmerged) :
    (fs.emitPush source op a1 a2 a3).instructions =
      fs.instructions ++ [.ofArgs (some source) op ((base.length + k : ℕ) : ℤ) a1 a2 a3] := by
  rw [emitPush_eq h, instructions_unmerged hop]
  rfl

namespace Computes

/-- `AddInstruction` with `PushTarget` -/
theorem emitPush {D : σ → Except (E × World V G) (α × World V G)} {C : β → (ℕ → V) → Prop}
    {F : α × World V G → Except (E × World V G) (β × World V G)}
    (h : Computes ops base pre A B D τ k ts fs) (hlt : base.length + k < 256)
    (hi : Does (execute ops base.length)
      (.ofArgs (some source) op ((base.length + k : ℕ) : ℤ) a1 a2 a3) (Contains B) (Contains C) F)
    (hmerges : (fs.pushTarget none).Merges ops base.length
      (.ofArgs (some source) op ((base.length + k : ℕ) : ℤ) a1 a2 a3) (Contains (G := G) C))
    (hcmp : op = .CMP → τ' = .compare ∧ 0 ≤ a1) (hnulls : op = .LOADNULLS → 0 ≤ a1)
    (hmod : op ≠ .MOD) :
    Computes ops base pre A C (fun x => D x >>= F) τ' (k + 1) ((base.length + k) :: ts)
      (fs.emitPush source op a1 a2 a3) := by
  rw [emitPush_eq h.allocated]
  apply h.pushTarget.add hi hmerges
  apply h.pushTarget.ends.add hcmp _ hnulls hmod
  intro _
  left
  simp only [SQInstruction.ofArgs, toNat_byte hlt]
  exact Nat.le_add_right _ _

/-- The same with an operation on operands -/
theorem store (proj : β → α) (vals : β × World V G → List V)
    {D : σ → Except (E × World V G) (β × World V G)} (h : Computes ops base pre A B' D τ k ts fs)
    (hlt : base.length + k < 256) (hB : Below (base.length + k) B)
    (hcomp : (SQInstruction.ofArgs (some source) op ((base.length + k : ℕ) : ℤ) a1 a2 a3).computation =
      some (.apply operation xs))
    (hproj : ∀ y t, B' y t → B (proj y) t)
    (hvals : ∀ p m, Contains B' p m → xs.map (·.value ops base.length m) = vals p)
    (hmerges : (fs.pushTarget none).Merges ops base.length
      (.ofArgs (some source) op ((base.length + k : ℕ) : ℤ) a1 a2 a3)
      (Contains (G := G) (After none (base.length + k) B)))
    (hcmp : op = .CMP → τ' = .compare ∧ 0 ≤ a1) :
    Computes ops base pre A (After none (base.length + k) B)
      (fun x => D x >>= fun p =>
        (ops.apply operation (vals p) p.2).map fun q => ((proj p.1, q.1), q.2))
      τ' (k + 1) ((base.length + k) :: ts) (fs.emitPush source op a1 a2 a3) := by
  apply h.emitPush hlt _ hmerges hcmp
  · rintro rfl
    cases hcomp
  · rintro rfl
    cases hcomp
  · exact does_store proj hcomp (toNat_byte hlt) (Nat.le_add_right _ _) hB hproj hvals

/-- The same with what there is already -/
theorem copy (proj : β → α) {D : σ → Except (E × World V G) (β × World V G)} {x : Operand}
    {val : β × World V G → V} (h : Computes ops base pre A B' D τ k ts fs)
    (hlt : base.length + k < 256) (hB : Below (base.length + k) B)
    (hcomp : (SQInstruction.ofArgs (some source) op ((base.length + k : ℕ) : ℤ) a1 a2 a3).computation =
      some (.copy x))
    (hproj : ∀ y t, B' y t → B (proj y) t)
    (hval : ∀ p m, Contains B' p m → x.value ops base.length m = val p)
    (hmerges : (fs.pushTarget none).Merges ops base.length
      (.ofArgs (some source) op ((base.length + k : ℕ) : ℤ) a1 a2 a3)
      (Contains (G := G) (After none (base.length + k) B))) :
    Computes ops base pre A (After none (base.length + k) B)
      (fun x => D x >>= fun p => .ok ((proj p.1, val p), p.2))
      .other (k + 1) ((base.length + k) :: ts) (fs.emitPush source op a1 a2 a3) := by
  apply h.emitPush hlt _ hmerges
  · rintro rfl
    cases hcomp
  · rintro rfl
    cases hcomp
  · rintro rfl
    cases hcomp
  · apply does_copy (executes_copy hcomp)
    intro p m hp
    have harg0 : (SQInstruction.ofArgs (some source) op ((base.length + k : ℕ) : ℤ) a1 a2
        a3).arg0.toNat = base.length + k := toNat_byte hlt
    rw [harg0, hval p m hp]
    have hrest : Contains B (proj p.1, p.2) m := ⟨hp.1, hproj p.1 m.temps hp.2⟩
    exact hrest.setReg hB (Nat.le_add_right _ _)

/-- The same where an operand is stored again after the operation -/
theorem again (proj : β → α) (vals : β × World V G → List V)
    {D : σ → Except (E × World V G) (β × World V G)} {r : ℕ} {val : β × World V G → V}
    (h : Computes ops base pre A B' D τ k ts fs) (hlt : base.length + k < 255)
    (hB : Below (base.length + k) B)
    (hexec : Executes ops base.length
      (.ofArgs (some source) op ((base.length + k : ℕ) : ℤ) a1 a2 a3) fun m =>
        (Computation.run ops base.length m (.apply operation xs)).map fun p =>
          p.2.setReg base.length (base.length + k) (p.2.reg base.length r))
    (hproj : ∀ y t, B' y t → B (proj y) t)
    (hvals : ∀ p m, Contains B' p m → xs.map (·.value ops base.length m) = vals p)
    (hval : ∀ p m, Contains B' p m → m.reg base.length r = val p)
    (hmerges : (fs.pushTarget none).Merges ops base.length
      (.ofArgs (some source) op ((base.length + k : ℕ) : ℤ) a1 a2 a3)
      (Contains (G := G) (After none (base.length + k) B)))
    (hcmp : op ≠ .CMP) (hnulls : op ≠ .LOADNULLS) (hmod : op ≠ .MOD) :
    Computes ops base pre A (After none (base.length + k) B)
      (fun x => D x >>= fun p =>
        (ops.apply operation (vals p) p.2 >>= fun q => .ok (val (p.1, q.2), q.2)).map
          fun q => ((proj p.1, q.1), q.2))
      .other (k + 1) ((base.length + k) :: ts) (fs.emitPush source op a1 a2 a3) := by
  have hi : Does (execute ops base.length)
      (.ofArgs (some source) op ((base.length + k : ℕ) : ℤ) a1 a2 a3) (Contains B')
      (Contains (After none (base.length + k) B)) fun p =>
        (ops.apply operation (vals p) p.2).map fun q => ((proj p.1, val (p.1, q.2)), q.2) := by
    apply does_apply hexec hvals
    intro p m q hp
    have hafter : Contains B' (p.1, q.2) ({ m with world := q.2 } : Registers V G) := ⟨rfl, hp.2⟩
    have hrest : Contains B (proj p.1, q.2) ({ m with world := q.2 } : Registers V G) :=
      ⟨rfl, hproj p.1 m.temps hp.2⟩
    dsimp only
    rw [hval _ _ hafter]
    exact hrest.setReg hB (Nat.le_add_right _ _)
  apply Computes.congr (h.emitPush (hlt.trans (by decide)) hi hmerges
    (fun hop => absurd hop hcmp) (fun hop => absurd hop hnulls) hmod)
  intro x
  cases D x with
  | error e => rfl
  | ok p =>
    simp only [bind, Except.bind]
    cases ops.apply operation (vals p) p.2 <;> rfl

end Computes

/-! ### What an instruction that stores an operand again does -/

theorem executes_set {trg src key val : ℕ} {operation : Operation}
    (hop : op = .SET ∧ operation = .set (src = 0) ∨ op = .NEWSLOT ∧ operation = .newSlot)
    (htrg : trg < 255) (hkey : key < 256) (hval : val < 256) :
    Executes ops N (.ofArgs (some source) op (trg : ℤ) src key val) fun m =>
      (Computation.run ops N m (.apply operation [.reg src, .reg key, .reg val])).map fun p =>
        p.2.setReg N trg (p.2.reg N val) := by
  intro m
  have hbyte : BitVec.ofInt 8 (trg : ℤ) ≠ 0xFF := by
    rw [BitVec.ofInt_natCast]
    exact byte_ne_max htrg
  rcases hop with ⟨rfl, rfl⟩ | ⟨rfl, rfl⟩
  all_goals
    simp only [execute, SQInstruction.computation, SQInstruction.ofArgs, toNat_byte hkey,
      toNat_byte hval, toNat_byte (htrg.trans (Nat.lt_succ_self 255)), Int.toNat_natCast,
      Nat.cast_eq_zero, ne_eq, hbyte, not_false_eq_true, if_true]
    generalize Computation.run ops N m _ = r
    cases r <;> rfl

theorem executes_setOuter {trg pos src : ℕ} (htrg : trg < 255) (hsrc : src < 256) :
    Executes ops N (.ofArgs (some source) .SETOUTER (trg : ℤ) pos src 0) fun m =>
      (Computation.run ops N m (.apply (.setOuter pos) [.reg src])).map fun p =>
        p.2.setReg N trg (p.2.reg N src) := by
  intro m
  have hbyte : BitVec.ofInt 8 (trg : ℤ) ≠ 0xFF := by
    rw [BitVec.ofInt_natCast]
    exact byte_ne_max htrg
  simp only [execute, SQInstruction.computation, SQInstruction.ofArgs, toNat_byte hsrc,
    toNat_byte (htrg.trans (Nat.lt_succ_self 255)), Int.toNat_natCast, ne_eq, hbyte,
    not_false_eq_true, if_true]
  generalize Computation.run ops N m _ = r
  cases r <;> rfl

end Stores

/-! ## Operators with operands -/

section Popped

variable {r r' r'' source : ℕ} {ts : List ℕ} {fs : SQFuncState} {op : SQOpcode} {p3 : ℤ}

theorem topTarget_eq (h : fs.targetstack = r :: ts) :
    fs.topTarget = r ∧ fs.popTarget.targetstack = ts := by
  constructor
  · rw [SQFuncState.topTarget, h]
    rfl
  · rw [SQFuncState.popTarget, h]
    rfl

theorem emit2ArgsOP_eq (h : fs.targetstack = r' :: r :: ts) :
    fs.emit2ArgsOP source op p3 = fs.popTarget.popTarget.emitPush source op r r' p3 := by
  obtain ⟨htop, hrest⟩ := topTarget_eq h
  obtain ⟨htop', _⟩ := topTarget_eq hrest
  simp only [SQFuncState.emit2ArgsOP, htop, htop']

theorem binExp_eq (h : fs.targetstack = r' :: r :: ts) :
    fs.binExp source op p3 = fs.popTarget.popTarget.emitPush source op r' r p3 := by
  obtain ⟨htop, hrest⟩ := topTarget_eq h
  obtain ⟨htop', _⟩ := topTarget_eq hrest
  simp only [SQFuncState.binExp, htop, htop']

theorem emitDerefOp_eq (h : fs.targetstack = r'' :: r' :: r :: ts) :
    fs.emitDerefOp source op =
      fs.popTarget.popTarget.popTarget.emitPush source op r r' r'' := by
  obtain ⟨htop, hrest⟩ := topTarget_eq h
  obtain ⟨htop', hrest'⟩ := topTarget_eq hrest
  obtain ⟨htop'', _⟩ := topTarget_eq hrest'
  simp only [SQFuncState.emitDerefOp, htop, htop', htop'']

theorem unaryOP_eq (h : fs.targetstack = r :: ts) :
    fs.unaryOP source op = fs.popTarget.emitPush source op r 0 0 := by
  obtain ⟨htop, _⟩ := topTarget_eq h
  simp only [SQFuncState.unaryOP, htop]

end Popped

section Operators

variable {V E G : Type} {ops : Operations V E G} {base : List SQLocalVarInfo} {σ α : Type}
  {pre : List SQInstruction} {A : σ → Registers V G → Prop} {B : α → (ℕ → V) → Prop}
  {τ τ' : Tail} {k source : ℕ} {ts : List ℕ} {fs : SQFuncState} {oa ob oc : Option ℕ}
  {op : SQOpcode} {operation : Operation} {a1 a2 a3 : ℤ}

theorem operand_lt {n : ℕ} (ho : ∀ pos, oa = some pos → Named base pos)
    (hlt : base.length + k < n) :
    oa.getD (base.length + k) < n := by
  cases oa with
  | none => exact hlt
  | some pos =>
    have hpos := (ho pos rfl).lt
    exact hpos.trans ((Nat.le_add_right _ _).trans_lt hlt)

/-- The register of an operand that is not a variable -/
theorem operand_temp (ho : ∀ pos, oa = some pos → Named base pos)
    (hle : base.length ≤ oa.getD (base.length + k)) : oa = none := by
  cases oa with
  | none => rfl
  | some pos => exact absurd hle (Nat.not_le.2 (ho pos rfl).lt)

theorem operand_eq_zero (ho : ∀ pos, oa = some pos → Named base pos) (hpos : 0 < base.length) :
    oa.getD (base.length + k) = 0 ↔ oa = some 0 := by
  cases oa with
  | none => simp [hpos.ne']
  | some pos => simp

namespace Computes

/-- An operator with one operand -/
theorem one (operation : Operation) {D : σ → Except (E × World V G) ((α × V) × World V G)}
    (h : Computes ops base pre A (After oa (base.length + k) B) D τ (k + operandTemps oa)
      (oa.getD (base.length + k) :: ts) fs)
    (ha : ∀ pos, oa = some pos → Named base pos) (hlt : base.length + k < 256)
    (hB : Below (base.length + k) B)
    (hcomp : (SQInstruction.ofArgs (some source) op ((base.length + k : ℕ) : ℤ) a1 a2 a3).computation =
      some (.apply operation [.reg (oa.getD (base.length + k))]))
    (hmerges : ∀ fs' : SQFuncState, fs'.Ends base.length τ → fs'.Merges ops base.length
      (.ofArgs (some source) op ((base.length + k : ℕ) : ℤ) a1 a2 a3)
      (Contains (G := G) (After none (base.length + k) B)))
    (hcmp : op = .CMP → τ' = .compare ∧ 0 ≤ a1) :
    Computes ops base pre A (After none (base.length + k) B)
      (fun x => D x >>= fun p =>
        (ops.apply operation [oa.elim p.1.2 p.2.1] p.2).map fun q => ((p.1.1, q.1), q.2))
      τ' (k + 1) ((base.length + k) :: ts) (fs.popTarget.emitPush source op a1 a2 a3) := by
  have hpop := h.popTarget ha
  apply hpop.store Prod.fst _ hlt hB hcomp (fun y t hy => hy.1) _ (hmerges _ hpop.pushTarget.ends) hcmp
  intro p m hp
  have hreg := hp.reg (fun pos hpos => (ha pos hpos).lt) (Nat.le_add_right base.length k)
  simp only [List.map_cons, List.map_nil, Operand.value_reg, hreg]

/-- An operator with two operands, and constants -/
theorem two (vals : V → V → List V) {D : σ → Except (E × World V G) (((α × V) × V) × World V G)}
    {xs : List Operand}
    (h : Computes ops base pre A (After ob (base.length + (k + operandTemps oa))
      (After oa (base.length + k) B)) D τ (k + operandTemps oa + operandTemps ob)
      (ob.getD (base.length + (k + operandTemps oa)) :: oa.getD (base.length + k) :: ts) fs)
    (ha : ∀ pos, oa = some pos → Named base pos) (hb : ∀ pos, ob = some pos → Named base pos)
    (hlt : base.length + k < 256) (hB : Below (base.length + k) B)
    (hcomp : (SQInstruction.ofArgs (some source) op ((base.length + k : ℕ) : ℤ) a1 a2 a3).computation =
      some (.apply operation xs))
    (hvals : ∀ m : Registers V G, xs.map (·.value ops base.length m) =
      vals (m.reg base.length (oa.getD (base.length + k)))
        (m.reg base.length (ob.getD (base.length + (k + operandTemps oa)))))
    (hmerges : ∀ fs' : SQFuncState, fs'.Ends base.length τ → fs'.Merges ops base.length
      (.ofArgs (some source) op ((base.length + k : ℕ) : ℤ) a1 a2 a3)
      (Contains (G := G) (After none (base.length + k) B)))
    (hcmp : op = .CMP → τ' = .compare ∧ 0 ≤ a1) :
    Computes ops base pre A (After none (base.length + k) B)
      (fun x => D x >>= fun p =>
        (ops.apply operation (vals (oa.elim p.1.1.2 p.2.1) (ob.elim p.1.2 p.2.1)) p.2).map
          fun q => ((p.1.1.1, q.1), q.2))
      τ' (k + 1) ((base.length + k) :: ts) (fs.popTarget.popTarget.emitPush source op a1 a2 a3) := by
  have hpop := (h.popTarget hb).popTarget ha
  apply hpop.store (fun y => y.1.1) _ hlt hB hcomp (fun y t hy => hy.1.1) _
    (hmerges _ hpop.pushTarget.ends) hcmp
  intro p m hp
  have hfirst := hp.outer.reg (fun pos hpos => (ha pos hpos).lt) (Nat.le_add_right base.length k)
  have hsecond := hp.reg (fun pos hpos => (hb pos hpos).lt)
    (Nat.le_add_right base.length (k + operandTemps oa))
  rw [hvals, hfirst, hsecond]

end Computes

end Operators

end Squirt.SQCompiler
