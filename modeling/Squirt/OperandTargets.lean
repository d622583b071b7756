import Squirt.EmittedMeaning

/-!
# Where the operands are

The targets are on a stack. The value of an expression is in the variable that it names, or in the
first temporary that is not in use.
-/

namespace Squirt.SQCompiler

open CodeBlocks

/-! ## Targets -/

/-- The register is the one of a variable with a name. -/
def Named (base : List SQLocalVarInfo) (pos : ℕ) : Prop :=
  ∃ lvi, base[pos]? = some lvi ∧ lvi.named = true

theorem Named.lt {base : List SQLocalVarInfo} {pos : ℕ} (h : Named base pos) :
    pos < base.length := by
  obtain ⟨lvi, hat, _⟩ := h
  exact (List.getElem?_eq_some_iff.1 hat).1

/-- How many temporaries an operand takes, by its variable -/
def operandTemps (o : Option ℕ) : ℕ := if o.isSome then 0 else 1

section Targets

variable {base : List SQLocalVarInfo} {k pos t : ℕ} {ts : List ℕ} {fs fs' : SQFuncState}
  {o : Option ℕ}

private theorem vlocals_addInstruction (fs : SQFuncState) (i : SQInstruction) :
    (fs.addInstruction i).vlocals = fs.vlocals ∧
      (fs.addInstruction i).targetstack = fs.targetstack := by
  unfold SQFuncState.addInstruction
  split
  · split
    · split <;> exact ⟨rfl, rfl⟩
    · exact ⟨rfl, rfl⟩
  · exact ⟨rfl, rfl⟩

/-- There are `k` temporaries after the variables, and these targets. -/
structure SQFuncState.Allocated (base : List SQLocalVarInfo) (k : ℕ) (ts : List ℕ)
    (fs : SQFuncState) : Prop where
  vlocals : fs.vlocals = base ++ List.replicate k ⟨false, false⟩
  targetstack : fs.targetstack = ts

namespace SQFuncState.Allocated

theorem of_eq (h : fs.Allocated base k ts) (hv : fs'.vlocals = fs.vlocals)
    (ht : fs'.targetstack = fs.targetstack) : fs'.Allocated base k ts :=
  ⟨hv.trans h.vlocals, ht.trans h.targetstack⟩

theorem addInstruction (h : fs.Allocated base k ts) (i : SQInstruction) :
    (fs.addInstruction i).Allocated base k ts :=
  h.of_eq (vlocals_addInstruction fs i).1 (vlocals_addInstruction fs i).2

theorem topTarget (h : fs.Allocated base k (t :: ts)) : fs.topTarget = t := by
  rw [SQFuncState.topTarget, h.targetstack]
  rfl

theorem pushTarget (h : fs.Allocated base k ts) :
    (fs.pushTarget none).Allocated base (k + 1) ((base.length + k) :: ts) := by
  have hlen : fs.vlocals.length = base.length + k := by simp [h.vlocals]
  constructor
  · simp [SQFuncState.pushTarget, h.vlocals, List.replicate_succ']
  · simp [SQFuncState.pushTarget, hlen, h.targetstack]

theorem pushLocal (h : fs.Allocated base k ts) :
    (fs.pushTarget (some pos)).Allocated base k (pos :: ts) :=
  ⟨h.vlocals, congrArg (pos :: ·) h.targetstack⟩

/-- The target of an operand -/
theorem popTarget (h : fs.Allocated base (k + operandTemps o) (o.getD (base.length + k) :: ts))
    (ho : ∀ pos, o = some pos → Named base pos) : fs.popTarget.Allocated base k ts := by
  have htop := h.topTarget
  have htail : fs.popTarget.targetstack = ts := by
    rw [SQFuncState.popTarget, h.targetstack]
    rfl
  apply SQFuncState.Allocated.mk _ htail
  cases o with
  | some pos =>
    obtain ⟨lvi, hat, hnamed⟩ := ho pos rfl
    have hvar : fs.vlocals[pos]? = some lvi := by
      rw [h.vlocals, List.getElem?_append_left (List.getElem?_eq_some_iff.1 hat).1, hat]
    simpa [SQFuncState.popTarget, htop, hvar, hnamed, operandTemps] using h.vlocals
  | none =>
    have hvlocals : fs.vlocals = base ++ List.replicate (k + 1) ⟨false, false⟩ := h.vlocals
    have htemp : fs.vlocals[base.length + k]? = some ⟨false, false⟩ := by
      simp [hvlocals]
    have hrest : fs.vlocals.dropLast = base ++ List.replicate k ⟨false, false⟩ := by
      rw [hvlocals, List.replicate_succ', ← List.append_assoc, List.dropLast_concat]
    simpa [SQFuncState.popTarget, htop, htemp] using hrest

end SQFuncState.Allocated

end Targets

/-! ## What the registers hold -/

section Contexts

variable {V E G : Type} {α β : Type} {B B' : α → (ℕ → V) → Prop} {N n n' k t : ℕ} {o : Option ℕ}
  {m : Registers V G}

/-- The world is the one of `p`, and `B` holds of the temporaries. -/
def Contains (B : α → (ℕ → V) → Prop) (p : α × World V G) (m : Registers V G) : Prop :=
  m.world = p.2 ∧ B p.1 m.temps

/-- `B` only looks at the temporaries below `n`. -/
def Below (n : ℕ) (B : α → (ℕ → V) → Prop) : Prop :=
  ∀ y t t', (∀ r < n, t r = t' r) → B y t → B y t'

/-- The value of one more operand is in the temporary `n`, if it is not in a variable. -/
def After (o : Option ℕ) (n : ℕ) (B : α → (ℕ → V) → Prop) (y : α × V) (t : ℕ → V) : Prop :=
  B y.1 t ∧ (o = none → t n = y.2)

theorem Below.mono (h : Below n B) (hle : n ≤ n') : Below n' B :=
  fun y t t' ht => h y t t' fun r hr => ht r (hr.trans_le hle)

theorem Below.after (h : Below n B) : Below (n + operandTemps o) (After o n B) := by
  intro y t t' ht hB
  constructor
  · exact h y.1 t t' (fun r hr => ht r (hr.trans_le (Nat.le_add_right _ _))) hB.1
  · intro hnone
    subst hnone
    rw [← ht n (by simp [operandTemps])]
    exact hB.2 rfl

theorem Below.blind (h : Below n B) (hle : n ≤ t) : Blind t (Contains (G := G) B) := by
  intro p m m' hsame hB
  constructor
  · exact hsame.1.symm.trans hB.1
  · exact h p.1 m.temps m'.temps (fun r hr => hsame.2 r (hr.trans_le hle).ne) hB.2

/-- The operands of an operator are not used after it has stored its value. -/
theorem Below.dead (h : Below n B) (hle : n ≤ t) :
    Dead t n (Contains (G := G) (After none n B)) := by
  rcases hle.eq_or_lt with rfl | hlt
  · exact .inl rfl
  · have hafter : Below (n + 1) (After none n B) := h.after (o := none)
    exact .inr (hafter.blind hlt)

namespace Contains

theorem outer {p : (α × V) × World V G} (h : Contains (After o n B) p m) :
    Contains B (p.1.1, p.2) m :=
  ⟨h.1, h.2.1⟩

/-- The register of an operand has its value. -/
theorem reg {p : (α × V) × World V G} (h : Contains (After o n B) p m)
    (ho : ∀ pos, o = some pos → pos < N) (hn : N ≤ n) :
    m.reg N (o.getD n) = o.elim p.1.2 p.2.1 := by
  cases o with
  | none => simpa [Registers.reg_of_le hn] using h.2.2 rfl
  | some pos => simp [Registers.reg_of_lt (ho pos rfl), h.1]

/-- A temporary is stored. -/
theorem setReg {y : α} {v : V} {world : World V G} (h : Contains B (y, world) m) (hB : Below n B)
    (hn : N ≤ n) : Contains (After none n B) ((y, v), world) (m.setReg N n v) := by
  rw [Registers.setReg_of_le hn]
  constructor
  · exact h.1
  · constructor
    · apply hB y m.temps _ _ h.2
      intro r hr
      exact (Function.update_of_ne hr.ne _ _).symm
    · exact fun _ => Function.update_self _ _ _

/-- A variable is stored. -/
theorem assign {y : α} {v v' : V} {world : World V G} (h : Contains B (y, world) m) {pos : ℕ}
    (hpos : pos < N) :
    Contains (After (some pos) n B) ((y, v'), World.assign world pos v) (m.setReg N pos v) := by
  rw [Registers.setReg_of_lt hpos]
  constructor
  · have hworld : m.world = world := h.1
    rw [World.assign, ← hworld]
  · exact ⟨h.2, fun hnone => absurd hnone (Option.some_ne_none _)⟩

end Contains

end Contexts

/-! ## What instructions do -/

section Instructions

variable {V E G : Type} {ops : Operations V E G} {N : ℕ} {α β : Type} {i : SQInstruction}
  {B : α → (ℕ → V) → Prop} {C : β → (ℕ → V) → Prop}

/-- The instruction applies an operation to its operands, and then stores the value. -/
theorem does_apply {op : Operation} {xs : List Operand}
    {write : V × Registers V G → Registers V G} {vals : α × World V G → List V}
    {g : α × World V G → V × World V G → β × World V G}
    (hexec : Executes ops N i fun m =>
      (Computation.run ops N m (.apply op xs)).map write)
    (hvals : ∀ p m, Contains B p m → xs.map (·.value ops N m) = vals p)
    (hwrite : ∀ p m q, Contains B p m → Contains C (g p q) (write (q.1, { m with world := q.2 }))) :
    Does (execute ops N) i (Contains B) (Contains C) fun p =>
      (ops.apply op (vals p) p.2).map (g p) := by
  intro p m hp
  rw [hexec m]
  simp only [Computation.run, hvals p m hp, hp.1]
  cases ops.apply op (vals p) p.2 with
  | error e => rfl
  | ok q => exact ⟨_, hwrite p m q hp, rfl⟩

/-- The instruction stores what there is already. -/
theorem does_copy {write : Registers V G → Registers V G} {g : α × World V G → β × World V G}
    (hexec : Executes ops N i fun m => .ok (write m))
    (hwrite : ∀ p m, Contains B p m → Contains C (g p) (write m)) :
    Does (execute ops N) i (Contains B) (Contains C) fun p => .ok (g p) := by
  intro p m hp
  rw [hexec m]
  exact ⟨_, hwrite p m hp, rfl⟩

theorem executes_apply {op : Operation} {xs : List Operand}
    (h : i.computation = some (.apply op xs)) : Executes ops N i fun m =>
      (Computation.run ops N m (.apply op xs)).map fun p => p.2.setReg N i.arg0.toNat p.1 :=
  executes_computation h

theorem executes_copy {x : Operand} (h : i.computation = some (.copy x)) :
    Executes ops N i fun m => .ok (m.setReg N i.arg0.toNat (x.value ops N m)) :=
  executes_computation h

end Instructions

end Squirt.SQCompiler
