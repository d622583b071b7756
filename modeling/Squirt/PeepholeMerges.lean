import Squirt.RegisterMachine
import Squirt.CodeBlocks

/-!
# What the optimizer merges

Two instructions that `AddInstruction` makes one of do together what the one does, but for the
temporary between them, which is not stored any more.
-/

namespace Squirt.SQCompiler

open CodeBlocks

variable {V E G : Type} {ops : Operations V E G} {nlocals : ℕ} {m m' : Registers V G} {r t d : ℕ}
  {v : V} {i j pi : SQInstruction}

namespace Registers

@[simp] theorem reg_setReg_self : (m.setReg nlocals r v).reg nlocals r = v := by
  by_cases h : r < nlocals <;> simp [reg, setReg, h]

theorem reg_setReg_of_ne (h : t ≠ r) : (m.setReg nlocals r v).reg nlocals t = m.reg nlocals t := by
  by_cases hr : r < nlocals <;> by_cases ht : t < nlocals <;> simp [reg, setReg, hr, ht, h]

theorem setReg_of_le (h : nlocals ≤ r) :
    m.setReg nlocals r v = { m with temps := Function.update m.temps r v } := by
  simp [setReg, Nat.not_lt.2 h]

theorem setReg_of_lt (h : r < nlocals) :
    m.setReg nlocals r v = { m with world := (Function.update m.world.1 r v, m.world.2) } := by
  simp [setReg, h]

theorem reg_of_le (h : nlocals ≤ r) : m.reg nlocals r = m.temps r := by
  simp [reg, Nat.not_lt.2 h]

theorem reg_of_lt (h : r < nlocals) : m.reg nlocals r = m.world.1 r := by
  simp [reg, h]

theorem world_setReg (h : nlocals ≤ r) : (m.setReg nlocals r v).world = m.world := by
  rw [setReg_of_le h]

end Registers

@[simp] theorem Operand.value_reg : (Operand.reg r).value ops nlocals m = m.reg nlocals r := rfl

/-- The temporary `t` may have different values. -/
def SameBut (t : ℕ) (m m' : Registers V G) : Prop :=
  m.world = m'.world ∧ ∀ r ≠ t, m.temps r = m'.temps r

namespace SameBut

theorem setReg (h : SameBut t m m') (r : ℕ) (v : V) :
    SameBut t (m.setReg nlocals r v) (m'.setReg nlocals r v) := by
  by_cases hr : r < nlocals
  · rw [Registers.setReg_of_lt hr, Registers.setReg_of_lt hr]
    exact ⟨by rw [h.1], h.2⟩
  · rw [Registers.setReg_of_le (Nat.not_lt.1 hr), Registers.setReg_of_le (Nat.not_lt.1 hr)]
    refine ⟨h.1, fun s hs => ?_⟩
    by_cases hsr : s = r
    · simp [hsr]
    · simp [Function.update_of_ne hsr, h.2 s hs]

/-- Storing `t` makes them the same. -/
theorem setReg_self (h : SameBut t m m') (ht : nlocals ≤ t) (v : V) :
    m.setReg nlocals t v = m'.setReg nlocals t v := by
  rw [Registers.setReg_of_le ht, Registers.setReg_of_le ht, h.1]
  congr 1
  funext s
  by_cases hs : s = t
  · simp [hs]
  · simp [Function.update_of_ne hs, h.2 s hs]

theorem of_setReg (h : nlocals ≤ t) : SameBut t (m.setReg nlocals t v) m := by
  rw [Registers.setReg_of_le h]
  exact ⟨rfl, fun r hr => Function.update_of_ne hr _ _⟩

variable (nlocals) in
theorem reg (h : SameBut t m m') (hr : r ≠ t) : m.reg nlocals r = m'.reg nlocals r := by
  by_cases hlt : r < nlocals
  · rw [Registers.reg_of_lt hlt, Registers.reg_of_lt hlt, h.1]
  · rw [Registers.reg_of_le (Nat.not_lt.1 hlt), Registers.reg_of_le (Nat.not_lt.1 hlt), h.2 r hr]

end SameBut

/-- `C` does not look at the temporary `t`. -/
def Blind {υ : Type} (t : ℕ) (C : υ → Registers V G → Prop) : Prop :=
  ∀ y m m', SameBut t m m' → C y m → C y m'

/-- The register `t` is stored next, or `C` does not look at it. -/
def Dead {υ : Type} (t d : ℕ) (C : υ → Registers V G → Prop) : Prop := d = t ∨ Blind t C

theorem Dead.setReg {υ : Type} {C : υ → Registers V G → Prop} {y : υ} (h : Dead t d C)
    (ht : nlocals ≤ t) (hm : SameBut t m m') (hC : C y (m.setReg nlocals d v)) :
    C y (m'.setReg nlocals d v) := by
  rcases h with rfl | h
  · rwa [← hm.setReg_self ht]
  · exact h y _ _ (hm.setReg d v) hC

/-- The instruction does not jump. -/
def Executes (ops : Operations V E G) (nlocals : ℕ) (i : SQInstruction)
    (f : Registers V G → Except (E × World V G) (Registers V G)) : Prop :=
  ∀ m, execute ops nlocals i m = some ((f m).map fun m => (0, m))

/-- Both raise the same error, or `C` holds of what the second leaves if it holds of what the first
leaves. -/
def Preserves {υ : Type} (C : υ → Registers V G → Prop) :
    Except (E × World V G) (Registers V G) → Except (E × World V G) (Registers V G) → Prop
  | .ok m, .ok m' => ∀ y, C y m → C y m'
  | .error e, .error e' => e = e'
  | _, _ => False

theorem executes_computation {c : Computation} (h : i.computation = some c) :
    Executes ops nlocals i fun m =>
      (c.run ops nlocals m).map fun p => p.2.setReg nlocals i.arg0.toNat p.1 := by
  intro m
  simp only [execute, h]
  cases c.run ops nlocals m <;> rfl

section Merges

variable {υ : Type} {C : υ → Registers V G → Prop}
  {f g h : Registers V G → Except (E × World V G) (Registers V G)}

theorem Preserves.refl (r : Except (E × World V G) (Registers V G)) : Preserves C r r := by
  cases r with
  | ok m => exact fun _ hC => hC
  | error e => rfl

theorem replaces_of_executes (hpi : Executes ops nlocals pi f) (hi : Executes ops nlocals i g)
    (hj : Executes ops nlocals j h) (hleaves : ∀ m, Preserves C (f m >>= g) (h m)) :
    Replaces (execute ops nlocals) pi i j C := by
  have hbind : ∀ m m', execute ops nlocals pi m = some (.ok (0, m')) → f m >>= g = g m' := by
    intro m m' hm
    rw [hpi m] at hm
    cases hf : f m <;> rw [hf] at hm <;> cases hm
    rfl
  constructor
  · intro m e hm
    have hl := hleaves m
    rw [hpi m] at hm
    cases hf : f m <;> rw [hf] at hm hl <;> cases hm
    rw [hj m]
    cases hh : h m <;> rw [hh] at hl <;> cases hl
    rfl
  · intro m m' e hm hm'
    have hl := hleaves m
    rw [hbind m m' hm] at hl
    rw [hi m'] at hm'
    cases hg : g m' <;> rw [hg] at hm' hl <;> cases hm'
    rw [hj m]
    cases hh : h m <;> rw [hh] at hl <;> cases hl
    rfl
  · intro m m' m'' y hm hm' hC
    have hl := hleaves m
    rw [hbind m m' hm] at hl
    rw [hi m'] at hm'
    cases hg : g m' <;> rw [hg] at hm' hl <;> cases hm'
    rw [hj m]
    cases hh : h m with
    | error e =>
      rw [hh] at hl
      cases hl
    | ok m₃ =>
      rw [hh] at hl
      exact ⟨m₃, hl y hC, rfl⟩

/-- The operand that was copied into a temporary is used itself. -/
theorem replaces_copied {x : Operand} {op : Operation} {xs ys : List Operand}
    (hpi : pi.computation = some (.copy x)) (ht : nlocals ≤ pi.arg0.toNat)
    (hi : i.computation = some (.apply op xs)) (hj : j.computation = some (.apply op ys))
    (harg0 : j.arg0 = i.arg0)
    (hval : ∀ m : Registers V G, xs.map (·.value ops nlocals
      (m.setReg nlocals pi.arg0.toNat (x.value ops nlocals m))) = ys.map (·.value ops nlocals m))
    (hC : Dead pi.arg0.toNat i.arg0.toNat C) : Replaces (execute ops nlocals) pi i j C := by
  apply replaces_of_executes (executes_computation hpi) (executes_computation hi)
    (executes_computation hj)
  intro m
  have hworld := m.world_setReg (v := x.value ops nlocals m) ht
  simp only [Computation.run, Except.map, bind, Except.bind, hworld, hval, harg0]
  cases ops.apply op (ys.map (·.value ops nlocals m)) m.world with
  | error e => rfl
  | ok p =>
    intro y hy
    have hsame : SameBut pi.arg0.toNat
        ⟨p.2, (m.setReg nlocals pi.arg0.toNat (x.value ops nlocals m)).temps⟩ ⟨p.2, m.temps⟩ :=
      ⟨rfl, (SameBut.of_setReg ht).2⟩
    exact hC.setReg ht hsame hy

/-- A computation stores its result where the next instruction would move it. -/
theorem replaces_moved {c : Computation} (hpi : pi.computation = some c)
    (ht : nlocals ≤ pi.arg0.toNat) (hi : i.computation = some (.copy (.reg pi.arg0.toNat)))
    (hj : j.computation = some c) (harg0 : j.arg0 = i.arg0)
    (hC : Dead pi.arg0.toNat i.arg0.toNat C) : Replaces (execute ops nlocals) pi i j C := by
  apply replaces_of_executes (executes_computation hpi) (executes_computation hi)
    (executes_computation hj)
  intro m
  cases hc : c.run ops nlocals m with
  | error e => rfl
  | ok p =>
    intro y hy
    simp only [Operand.value, Registers.reg_setReg_self] at hy
    rw [harg0]
    exact hC.setReg ht (SameBut.of_setReg ht) hy

theorem byte_eq_zero {n : ℕ} (h : n < 256) : BitVec.ofNat 8 n = 0#8 ↔ n = 0 := by
  rw [← BitVec.toNat_inj]
  simp [Nat.mod_eq_of_lt h]

theorem byte_ne_max {n : ℕ} (h : n < 255) : BitVec.ofNat 8 n ≠ 255#8 := by
  rw [Ne, ← BitVec.toNat_inj, BitVec.toNat_ofNat, Nat.mod_eq_of_lt (h.trans (by decide))]
  simp
  omega

/-- `_OP_GETK` -/
theorem replaces_get {s : ℕ} (hpi : pi.op = .LOAD) (hi : i.op = .GET) (harg2 : pi.arg0 = i.arg2)
    (hs : i.arg1 = s) (hlt : s < 256) (hne : s ≠ pi.arg0.toNat) (ht : nlocals ≤ pi.arg0.toNat)
    (hC : Dead pi.arg0.toNat i.arg0.toNat C) :
    Replaces (execute ops nlocals) pi i
      { pi with op := .GETK, arg0 := i.arg0, arg2 := .ofInt 8 i.arg1 } C := by
  have hfirst : pi.computation = some (.copy (.literal pi.arg1.toNat)) := by
    simp [SQInstruction.computation, hpi]
  have hsecond : i.computation =
      some (.apply (.get (i.arg1 = 0)) [.reg s, .reg pi.arg0.toNat]) := by
    simp [SQInstruction.computation, hi, hs, harg2]
  have hboth : ({ pi with op := .GETK, arg0 := i.arg0, arg2 := .ofInt 8 i.arg1 } :
      SQInstruction).computation =
        some (.apply (.get (i.arg1 = 0)) [.reg s, .literal pi.arg1.toNat]) := by
    simp [SQInstruction.computation, hs, Nat.mod_eq_of_lt hlt, byte_eq_zero hlt]
  apply replaces_copied hfirst ht hsecond hboth rfl _ hC
  intro m
  simp [Operand.value, Registers.reg_setReg_of_ne hne]

/-- A comparison with a literal -/
theorem replaces_equality {s : ℕ} {op : BinaryOperator} (hpi : pi.op = .LOAD)
    (hi : i.op = .EQ ∧ op = .eq ∨ i.op = .NE ∧ op = .ne) (harg1 : (pi.arg0.toNat : ℤ) = i.arg1)
    (harg3 : i.arg3 = 0) (hs : i.arg2.toNat = s) (hne : s ≠ pi.arg0.toNat)
    (ht : nlocals ≤ pi.arg0.toNat) (hC : Dead pi.arg0.toNat i.arg0.toNat C) :
    Replaces (execute ops nlocals) pi i
      { pi with op := i.op, arg0 := i.arg0, arg2 := i.arg2, arg3 := 0xFF } C := by
  have hfirst : pi.computation = some (.copy (.literal pi.arg1.toNat)) := by
    simp [SQInstruction.computation, hpi]
  have hsecond : i.computation = some (.apply (.binary op) [.reg s, .reg pi.arg0.toNat]) := by
    rcases hi with ⟨hi, rfl⟩ | ⟨hi, rfl⟩ <;>
      simp [SQInstruction.computation, SQInstruction.condLiteral, hi, hs, harg3, ← harg1]
  have hboth : ({ pi with op := i.op, arg0 := i.arg0, arg2 := i.arg2, arg3 := 0xFF } :
      SQInstruction).computation =
        some (.apply (.binary op) [.reg s, .literal pi.arg1.toNat]) := by
    rcases hi with ⟨hi, rfl⟩ | ⟨hi, rfl⟩ <;>
      simp [SQInstruction.computation, SQInstruction.condLiteral, hi, hs]
  apply replaces_copied hfirst ht hsecond hboth rfl _ hC
  intro m
  simp [Operand.value, Registers.reg_setReg_of_ne hne]

/-- `_OP_DLOAD` -/
theorem replaces_load {k : ℕ} (hpi : pi.op = .LOAD) (hi : i.op = .LOAD) (hk : i.arg1 = k)
    (hlt : k < 256) : Replaces (execute ops nlocals) pi i
      { pi with op := .DLOAD, arg2 := i.arg0, arg3 := .ofInt 8 i.arg1 } C := by
  have hfirst : pi.computation = some (.copy (.literal pi.arg1.toNat)) := by
    simp [SQInstruction.computation, hpi]
  have hsecond : i.computation = some (.copy (.literal k)) := by
    simp [SQInstruction.computation, hi, hk]
  apply replaces_of_executes (executes_computation hfirst) (executes_computation hsecond)
    (h := fun m => .ok ((m.setReg nlocals pi.arg0.toNat (ops.literal pi.arg1.toNat)).setReg nlocals
      i.arg0.toNat (ops.literal k)))
  · intro m
    simp [execute, SQInstruction.computation, hk, Nat.mod_eq_of_lt hlt, Except.map]
  · intro m
    exact Preserves.refl _

/-- `_OP_DMOVE` -/
theorem replaces_move {s : ℕ} (hpi : pi.op = .MOVE) (hi : i.op = .MOVE) (hs : i.arg1 = s)
    (hlt : s < 256) : Replaces (execute ops nlocals) pi i
      { pi with op := .DMOVE, arg2 := i.arg0, arg3 := .ofInt 8 i.arg1 } C := by
  have hfirst : pi.computation = some (.copy (.reg pi.arg1.toNat)) := by
    simp [SQInstruction.computation, hpi]
  have hsecond : i.computation = some (.copy (.reg s)) := by
    simp [SQInstruction.computation, hi, hs]
  apply replaces_of_executes (executes_computation hfirst) (executes_computation hsecond)
    (h := fun m =>
      let m := m.setReg nlocals pi.arg0.toNat (m.reg nlocals pi.arg1.toNat)
      .ok (m.setReg nlocals i.arg0.toNat (m.reg nlocals s)))
  · intro m
    simp [execute, SQInstruction.computation, hs, Nat.mod_eq_of_lt hlt, Except.map]
  · intro m
    exact Preserves.refl _

/-- `_OP_LOADNULLS` of one register more -/
theorem replaces_loadNulls (hpi : pi.op = .LOADNULLS) (hi : i.op = .LOADNULLS) (hone : i.arg1 = 1)
    (hnext : (pi.arg0.toNat : ℤ) + pi.arg1 = i.arg0.toNat) (hpos : 0 ≤ pi.arg1) :
    Replaces (execute ops nlocals) pi i { pi with arg1 := pi.arg1 + 1 } C := by
  have hexec : ∀ {i : SQInstruction}, i.op = .LOADNULLS → Executes ops nlocals i fun m =>
      .ok ((List.range i.arg1.toNat).foldl
        (fun m n => m.setReg nlocals (i.arg0.toNat + n) ops.null) m) := by
    intro i h m
    simp [execute, SQInstruction.computation, h, Except.map]
  apply replaces_of_executes (hexec hpi) (hexec hi) (hexec (by exact hpi))
  intro m
  have hsucc : (pi.arg1 + 1).toNat = pi.arg1.toNat + 1 := by omega
  have harg0 : i.arg0.toNat = pi.arg0.toNat + pi.arg1.toNat := by omega
  simp only [hsucc, List.range_succ, List.foldl_append, List.foldl_cons, List.foldl_nil, hone, harg0]
  exact Preserves.refl _

theorem executes_prepCall (hi : i.op = .PREPCALL ∨ i.op = .PREPCALLK) :
    Executes ops nlocals i fun m =>
      (Computation.run ops nlocals m (.apply (.get (i.arg2 = 0)) [.reg i.arg2.toNat,
        if i.op = .PREPCALLK then .literal i.arg1.toNat else .reg i.arg1.toNat])).map fun p =>
      (p.2.setReg nlocals i.arg3.toNat (p.2.reg nlocals i.arg2.toNat)).setReg nlocals
        i.arg0.toNat p.1 := by
  intro m
  rcases hi with hi | hi
  all_goals
    simp only [execute, SQInstruction.computation, hi]
    generalize Computation.run ops nlocals m _ = r
    cases r <;> rfl

/-- `_OP_PREPCALLK` -/
theorem replaces_prepCall (hpi : pi.op = .LOAD) (hi : i.op = .PREPCALL)
    (harg1 : (pi.arg0.toNat : ℤ) = i.arg1) (hne : i.arg2.toNat ≠ pi.arg0.toNat)
    (ht : nlocals ≤ pi.arg0.toNat)
    (hC : i.arg3.toNat = pi.arg0.toNat ∨ Dead pi.arg0.toNat i.arg0.toNat C) :
    Replaces (execute ops nlocals) pi i
      { pi with op := .PREPCALLK, arg0 := i.arg0, arg2 := i.arg2, arg3 := i.arg3 } C := by
  have hfirst : pi.computation = some (.copy (.literal pi.arg1.toNat)) := by
    simp [SQInstruction.computation, hpi]
  apply replaces_of_executes (executes_computation hfirst) (executes_prepCall (.inl hi))
    (executes_prepCall (.inr rfl))
  intro m
  have hkey : i.arg1.toNat = pi.arg0.toNat := by omega
  have hworld := m.world_setReg (v := ops.literal pi.arg1.toNat) ht
  have hreg : (m.setReg nlocals pi.arg0.toNat (ops.literal pi.arg1.toNat)).reg nlocals
      i.arg2.toNat = m.reg nlocals i.arg2.toNat := Registers.reg_setReg_of_ne hne
  have hop : i.op ≠ .PREPCALLK := by simp [hi]
  simp only [Computation.run, Operand.value, Except.map, bind, Except.bind, List.map_cons,
    List.map_nil, if_neg hop, if_pos, hkey, Registers.reg_setReg_self, hworld, hreg]
  cases ops.apply (.get (i.arg2 = 0))
    [m.reg nlocals i.arg2.toNat, ops.literal pi.arg1.toNat] m.world with
  | error e => rfl
  | ok p =>
    intro y hy
    have hsame : SameBut pi.arg0.toNat
        ⟨p.2, (m.setReg nlocals pi.arg0.toNat (ops.literal pi.arg1.toNat)).temps⟩ ⟨p.2, m.temps⟩ :=
      ⟨rfl, (SameBut.of_setReg ht).2⟩
    have hthis := SameBut.reg nlocals hsame hne
    dsimp only at hy ⊢
    rw [hthis] at hy
    rcases hC with h3 | hC
    · rw [h3] at hy ⊢
      rwa [hsame.setReg_self ht] at hy
    · exact hC.setReg ht (hsame.setReg _ _) hy

theorem executes_appendArray (hi : i.op = .APPENDARRAY) :
    Executes ops nlocals i fun m =>
      (Computation.run ops nlocals m (.apply .append [.reg i.arg0.toNat, i.appended])).map
        Prod.snd := by
  intro m
  simp only [execute, SQInstruction.computation, hi]
  generalize Computation.run ops nlocals m _ = r
  cases r <;> rfl

/-- `_OP_APPENDARRAY` of a constant -/
theorem replaces_appendArray {aat : BitVec 8} (hpi : appendArrayType pi.op = some aat)
    (hi : i.op = .APPENDARRAY) (harg1 : (pi.arg0.toNat : ℤ) = i.arg1) (harg2 : i.arg2 = 0)
    (hne : i.arg0.toNat ≠ pi.arg0.toNat) (ht : nlocals ≤ pi.arg0.toNat)
    (hC : Blind pi.arg0.toNat C) : Replaces (execute ops nlocals) pi i
      { pi with op := .APPENDARRAY, arg0 := i.arg0, arg2 := aat, arg3 := 0xFF } C := by
  obtain ⟨x, hx, happended⟩ : ∃ x : Operand, pi.computation = some (.copy x) ∧
      ({ pi with op := .APPENDARRAY, arg0 := i.arg0, arg2 := aat, arg3 := 0xFF } :
        SQInstruction).appended = x := by
    unfold appendArrayType at hpi
    split at hpi <;> cases hpi <;> rename_i hop <;>
      refine ⟨_, ?_, rfl⟩ <;> simp [SQInstruction.computation, SQInstruction.appended, hop]
  apply replaces_of_executes (executes_computation hx) (executes_appendArray hi)
    (executes_appendArray rfl)
  intro m
  have hval : i.arg1.toNat = pi.arg0.toNat := by omega
  have hitem : i.appended = .reg pi.arg0.toNat := by
    simp [SQInstruction.appended, harg2, hval]
  have hworld := m.world_setReg (v := x.value ops nlocals m) ht
  have hreg : (m.setReg nlocals pi.arg0.toNat (x.value ops nlocals m)).reg nlocals
      i.arg0.toNat = m.reg nlocals i.arg0.toNat := Registers.reg_setReg_of_ne hne
  simp only [happended, hitem, Computation.run, Operand.value_reg, Except.map, bind, Except.bind,
    List.map_cons, List.map_nil, Registers.reg_setReg_self, hworld, hreg]
  cases ops.apply .append [m.reg nlocals i.arg0.toNat, x.value ops nlocals m] m.world with
  | error e => rfl
  | ok p =>
    intro y hy
    have hsame : SameBut pi.arg0.toNat
        ⟨p.2, (m.setReg nlocals pi.arg0.toNat (x.value ops nlocals m)).temps⟩ ⟨p.2, m.temps⟩ :=
      ⟨rfl, (SameBut.of_setReg ht).2⟩
    exact hC y _ _ hsame hy

end Merges

end Squirt.SQCompiler
