import Squirt.VmFrameEffects

/-!
# What is in the slots

What the functions that write `_stack` leave in each slot, and where they can write.
-/

namespace Squirt.SQVM

variable {vm vm' vm'' : SQVM} {i j : ℤ} {o : SQObject} {os : List SQObject} {n : ℕ}

theorem slot_isSome_iff : (vm.slot i).isSome ↔ 0 ≤ i ∧ i < vm.stack.length := by
  unfold slot
  split_ifs with hi
  · simp only [isSome_getElem?]
    omega
  · simp only [Option.isSome_none, Bool.false_eq_true, false_iff]
    omega

theorem slot_eq_of_stack (h : vm'.stack = vm.stack) (i : ℤ) : vm'.slot i = vm.slot i := by
  rw [slot, slot, h]

theorem setSlot_isSome_iff : (vm.setSlot i o).isSome ↔ 0 ≤ i ∧ i < vm.stack.length := by
  unfold setSlot
  split_ifs with h
  · simpa using h
  · simpa using h

theorem slot_setSlot (h : vm.setSlot i o = some vm') (j : ℤ) :
    vm'.slot j = if j = i then some o else vm.slot j := by
  unfold setSlot at h
  split_ifs at h with hi
  cases h
  unfold slot
  simp only
  split_ifs with hj hji hji
  · rw [hji, List.getElem?_set_self (by omega)]
  · rw [List.getElem?_set_ne (by omega)]
  · omega
  · rfl

theorem slot_setSlot_self (h : vm.setSlot i o = some vm') : vm'.slot i = some o := by
  rw [slot_setSlot h, if_pos rfl]

theorem slot_setSlot_ne (h : vm.setSlot i o = some vm') (hj : j ≠ i) : vm'.slot j = vm.slot j := by
  rw [slot_setSlot h, if_neg hj]

/-- Nothing changes but slots. -/
def Wrote (vm vm' : SQVM) : Prop :=
  ∃ stack, stack.length = vm.stack.length ∧ vm' = { vm with stack := stack }

theorem Wrote.refl (vm : SQVM) : Wrote vm vm := ⟨_, rfl, rfl⟩

theorem Wrote.trans (h : Wrote vm vm') (h' : Wrote vm' vm'') : Wrote vm vm'' := by
  obtain ⟨_, hlen, rfl⟩ := h
  obtain ⟨st, hlen', rfl⟩ := h'
  exact ⟨st, hlen'.trans hlen, rfl⟩

theorem Wrote.arrays (h : Wrote vm vm') : vm'.arrays = vm.arrays := by
  obtain ⟨_, _, rfl⟩ := h
  rfl

theorem Wrote.generators (h : Wrote vm vm') : vm'.generators = vm.generators := by
  obtain ⟨_, _, rfl⟩ := h
  rfl

theorem wrote_setSlot (h : vm.setSlot i o = some vm') : Wrote vm vm' := by
  unfold setSlot at h
  split_ifs at h
  cases h
  exact ⟨_, by simp, rfl⟩

private theorem wrote_setSlots (h : vm.setSlots i os = some vm') : Wrote vm vm' := by
  induction os generalizing vm i with
  | nil => exact Option.some.inj h ▸ .refl vm
  | cons o os ih =>
    obtain ⟨vm₁, h₁, h₂⟩ := Option.bind_eq_some_iff.mp h
    exact (wrote_setSlot h₁).trans (ih h₂)

private theorem wrote_nullDown (h : vm.nullDown i n = some vm') : Wrote vm vm' := by
  induction n generalizing vm i with
  | zero => exact Option.some.inj h ▸ .refl vm
  | succ n ih =>
    obtain ⟨vm₁, h₁, h₂⟩ := Option.bind_eq_some_iff.mp h
    exact (wrote_setSlot h₁).trans (ih h₂)

theorem wrote_placeEnv {env : Option SQObject} (h : vm.placeEnv env i = some vm') :
    Wrote vm vm' := by
  cases env with
  | none => exact Option.some.inj h ▸ .refl vm
  | some o => exact wrote_setSlot h

theorem slot_placeEnv_ne {env : Option SQObject} (h : vm.placeEnv env i = some vm') (hj : j ≠ i) :
    vm'.slot j = vm.slot j := by
  cases env with
  | none => exact Option.some.inj h ▸ rfl
  | some e => exact slot_setSlot_ne h hj

theorem placeEnv_isSome {env : Option SQObject} (h0 : 0 ≤ i) (h1 : i < vm.stack.length) :
    (vm.placeEnv env i).isSome := by
  cases env with
  | none => rfl
  | some o => exact setSlot_isSome_iff.mpr ⟨h0, h1⟩

/-- The environment takes the place of `this`. -/
theorem slot_placeEnv {env : Option SQObject} (h : vm.placeEnv env i = some vm')
    (ho : vm.slot i = some o) : vm'.slot i = some (env.getD o) := by
  cases env with
  | none => exact Option.some.inj h ▸ ho
  | some e => exact slot_setSlot_self h

/-- Outside `i`, …, `i + n - 1` the slots are the same. -/
def SameOutside (i : ℤ) (n : ℕ) (vm vm' : SQVM) : Prop :=
  ∀ j, j < i ∨ i + n ≤ j → vm'.slot j = vm.slot j

theorem setSlots_outside (h : vm.setSlots i os = some vm') : SameOutside i os.length vm vm' := by
  induction os generalizing vm i with
  | nil =>
    cases h
    exact fun j _ => rfl
  | cons o os ih =>
    obtain ⟨vm₁, h₁, h₂⟩ := Option.bind_eq_some_iff.mp h
    intro j hj
    rw [List.length_cons] at hj
    rw [ih h₂ j (by omega), slot_setSlot_ne h₁ (by omega)]

private theorem slot_setSlots (h : vm.setSlots i os = some vm') {k : ℕ} (hk : k < os.length) :
    vm'.slot (i + k) = os[k]? := by
  induction os generalizing vm i k with
  | nil => exact absurd hk (Nat.not_lt_zero k)
  | cons o os ih =>
    obtain ⟨vm₁, h₁, h₂⟩ := Option.bind_eq_some_iff.mp h
    cases k with
    | zero =>
      rw [setSlots_outside h₂ (i + (0 : ℕ)) (by omega)]
      simpa using slot_setSlot_self h₁
    | succ k =>
      have hk' := ih h₂ (Nat.lt_of_succ_lt_succ hk)
      rw [List.getElem?_cons_succ, ← hk']
      congr 1
      omega

theorem setSlots_isSome (h0 : 0 ≤ i) (h1 : i + os.length ≤ vm.stack.length) :
    (vm.setSlots i os).isSome := by
  induction os generalizing vm i with
  | nil => rfl
  | cons o os ih =>
    rw [List.length_cons] at h1
    obtain ⟨vm₁, h₁⟩ := Option.isSome_iff_exists.mp
      ((@setSlot_isSome_iff vm i o).mpr (by omega))
    have hlen := (stored_setSlot h₁).length_eq
    rw [setSlots, h₁, Option.bind_some]
    exact ih (by omega) (by omega)

theorem slots_eq_some (h : vm.slots i n = some os) :
    os.length = n ∧ ∀ k < n, vm.slot (i + k) = os[k]? := by
  induction n generalizing i os with
  | zero =>
    cases h
    exact ⟨rfl, fun k hk => absurd hk (Nat.not_lt_zero k)⟩
  | succ n ih =>
    obtain ⟨o, ho, h⟩ := Option.bind_eq_some_iff.mp h
    obtain ⟨os', hos, rfl⟩ := Option.map_eq_some_iff.mp h
    obtain ⟨hlen, hget⟩ := ih hos
    refine ⟨by rw [List.length_cons, hlen], fun k hk => ?_⟩
    cases k with
    | zero => simpa using ho
    | succ k =>
      rw [List.getElem?_cons_succ, ← hget k (Nat.lt_of_succ_lt_succ hk)]
      congr 1
      omega

private theorem slots_isSome (h0 : 0 ≤ i) (h1 : i + n ≤ vm.stack.length) : (vm.slots i n).isSome
    := by
  induction n generalizing i with
  | zero => rfl
  | succ n ih =>
    obtain ⟨o, ho⟩ := Option.isSome_iff_exists.mp
      ((@slot_isSome_iff vm i).mpr (by omega))
    obtain ⟨os, hos⟩ := Option.isSome_iff_exists.mp (ih (i := i + 1) (by omega) (by omega))
    rw [slots, ho, Option.bind_some, hos]
    rfl

/-- The variable arguments go into the list in order and leave nulls. -/
theorem packVarArgs_spec {r : SQVM × List SQObject} (h : vm.packVarArgs i n = some r) :
    vm.slots i n = some r.2 ∧ SameOutside i n vm r.1 := by
  induction n generalizing vm i r with
  | zero =>
    cases h
    exact ⟨rfl, fun j _ => rfl⟩
  | succ n ih =>
    obtain ⟨o, ho, h⟩ := Option.bind_eq_some_iff.mp h
    obtain ⟨vm₁, h₁, h⟩ := Option.bind_eq_some_iff.mp h
    obtain ⟨r', hr, rfl⟩ := Option.map_eq_some_iff.mp h
    obtain ⟨hslots, hsame⟩ := ih hr
    -- the slots that are still to be read have not changed
    have hread : ∀ (m : ℕ) (k : ℤ), i < k → vm₁.slots k m = vm.slots k m := by
      intro m
      induction m with
      | zero => exact fun _ _ => rfl
      | succ m ihm =>
        intro k hk
        rw [slots, slots, slot_setSlot_ne h₁ (by omega), ihm (k + 1) (by omega)]
    refine ⟨?_, fun j hj => ?_⟩
    · rw [slots, ho, Option.bind_some, ← hread n (i + 1) (by omega), hslots]
      rfl
    · rw [hsame j (by omega), slot_setSlot_ne h₁ (by omega)]

private theorem packVarArgs_isSome (h0 : 0 ≤ i) (h1 : i + n ≤ vm.stack.length) :
    (vm.packVarArgs i n).isSome := by
  induction n generalizing vm i with
  | zero => rfl
  | succ n ih =>
    obtain ⟨o, ho⟩ := Option.isSome_iff_exists.mp
      ((@slot_isSome_iff vm i).mpr (by omega))
    obtain ⟨vm₁, h₁⟩ := Option.isSome_iff_exists.mp
      ((@setSlot_isSome_iff vm i .null).mpr (by omega))
    have hlen := (stored_setSlot h₁).length_eq
    obtain ⟨r, hr⟩ := Option.isSome_iff_exists.mp (@ih vm₁ (i + 1) (by omega) (by omega))
    rw [packVarArgs, ho, Option.bind_some, h₁, Option.bind_some, hr]
    rfl

private theorem nullDown_isSome (h0 : 0 ≤ i - n + 1) (h1 : i < vm.stack.length) :
    (vm.nullDown i n).isSome := by
  induction n generalizing vm i with
  | zero => rfl
  | succ n ih =>
    obtain ⟨vm₁, h₁⟩ := Option.isSome_iff_exists.mp
      ((@setSlot_isSome_iff vm i .null).mpr (by omega))
    have hlen := (stored_setSlot h₁).length_eq
    rw [nullDown, h₁, Option.bind_some]
    exact ih (by omega) (by omega)

private theorem slot_enterFrame {newbase newtop : ℤ} {tailcall ok : Bool}
    (h : vm.enterFrame newbase newtop tailcall = (vm', ok)) (hj : (vm.slot j).isSome) :
    vm'.slot j = vm.slot j := by
  have hstack : (vm.pushFrame newbase newtop tailcall).stack = vm.stack := by
    unfold pushFrame growCallStack
    split_ifs <;> rfl
  obtain ⟨h0, h1⟩ := slot_isSome_iff.mp hj
  simp only [enterFrame] at h
  split_ifs at h
  · cases h
    exact slot_eq_of_stack hstack j
  · cases h
    unfold slot
    rw [if_pos h0, if_pos h0]
    simp only [hstack]
    rw [List.getElem?_append_left (by omega)]
  · cases h
    exact slot_eq_of_stack hstack j

private theorem arrays_enterFrame {newbase newtop : ℤ} {tailcall ok : Bool}
    (h : vm.enterFrame newbase newtop tailcall = (vm', ok)) : vm'.arrays = vm.arrays := by
  have hpush : (vm.pushFrame newbase newtop tailcall).arrays = vm.arrays := by
    unfold pushFrame growCallStack
    split_ifs <;> rfl
  simp only [enterFrame] at h
  split_ifs at h
  all_goals
    cases h
    exact hpush

private theorem arrays_leaveFrame (h : vm.leaveFrame = some vm') : vm'.arrays = vm.arrays := by
  unfold leaveFrame at h
  split at h
  · cases h
  · exact (wrote_nullDown h).arrays

private theorem arrays_Return {arg0 arg1 : ℤ} {b : Bool} {res : SQObject}
    (h : vm.Return arg0 arg1 = some (vm', b, res)) : vm'.arrays = vm.arrays := by
  unfold Return at h
  split at h
  · cases h
  · simp only at h
    generalize (if arg0 ≠ 255 then vm.slot (vm.stackbase + arg1) else some .null) = value at h
    split_ifs at h
    · obtain ⟨v, _, h⟩ := Option.bind_eq_some_iff.mp h
      obtain ⟨vm₁, h₁, h⟩ := Option.map_eq_some_iff.mp h
      cases h
      exact arrays_leaveFrame h₁
    · obtain ⟨vm₁, h₁, h⟩ := Option.map_eq_some_iff.mp h
      cases h
      exact arrays_leaveFrame h₁
    · obtain ⟨v, _, h⟩ := Option.bind_eq_some_iff.mp h
      obtain ⟨vm₁, h₁, h⟩ := Option.bind_eq_some_iff.mp h
      obtain ⟨vm₂, h₂, h⟩ := Option.map_eq_some_iff.mp h
      cases h
      exact (arrays_leaveFrame h₂).trans (wrote_setSlot h₁).arrays

/-- The arguments of a call, and the values that come for the missing ones. -/
theorem placeArgs_fixed {closure : SQClosure} {nargs : ℕ} {base : ℤ}
    (hvar : closure.function.varparams = false)
    (h : vm.placeArgs closure nargs base = some (vm', true)) :
    nargs ≤ closure.function.nparameters ∧
      ∀ k < closure.function.nparameters, vm'.slot (base + k) =
        if k < nargs then vm.slot (base + k)
        else closure.defaultparams[k + closure.function.ndefaultparams -
          closure.function.nparameters]? := by
  simp only [placeArgs, hvar, Bool.false_eq_true, if_false] at h
  split_ifs at h with hne hdef
  · obtain ⟨vm₁, h₁, h⟩ := Option.map_eq_some_iff.mp h
    cases h
    obtain ⟨-, hlt, hle⟩ := hdef
    refine ⟨hlt.le, fun k hk => ?_⟩
    have hlen := closure.defaults
    split_ifs with hkn
    · exact setSlots_outside h₁ _ (by omega)
    · have hget := slot_setSlots h₁ (k := k - nargs) (by
        rw [List.length_drop]
        omega)
      rw [List.getElem?_drop] at hget
      rw [show base + (k : ℤ) = base + nargs + ((k - nargs : ℕ) : ℤ) by omega, hget]
      congr 1
      omega
  · cases h
  · cases h
    refine ⟨by omega, fun k hk => ?_⟩
    rw [if_pos (by omega)]

/-- The arguments of a call of a function with variable arguments. -/
theorem placeArgs_variadic {closure : SQClosure} {nargs : ℕ} {base : ℤ}
    (hvar : closure.function.varparams = true)
    (h : vm.placeArgs closure nargs base = some (vm', true)) :
    let paramssize := closure.function.nparameters - 1
    paramssize ≤ nargs ∧ (∀ k < paramssize, vm'.slot (base + k) = vm.slot (base + k)) ∧
      ∃ a values, vm'.slot (base + paramssize) = some (.array a) ∧
        vm'.arrays[a]? = some values ∧
        vm.slots (base + paramssize) (nargs - paramssize) = some values := by
  simp only [placeArgs, hvar, if_true] at h
  split_ifs at h with hlt
  · cases h
  · obtain ⟨⟨vm₁, values⟩, h₁, h⟩ := Option.bind_eq_some_iff.mp h
    obtain ⟨vm₂, h₂, h⟩ := Option.map_eq_some_iff.mp h
    cases h
    obtain ⟨hvalues, hsame⟩ := packVarArgs_spec h₁
    refine ⟨by omega, fun k hk => ?_, vm₁.arrays.length, values, slot_setSlot_self h₂, ?_, hvalues⟩
    · rw [slot_setSlot_ne h₂ (by omega)]
      exact hsame _ (by omega)
    · rw [(wrote_setSlot h₂).arrays]
      simp [createArray]

/-- Entering the frame of a call leaves its slots alone. -/
theorem slot_enterCall {r : ℕ} {closure : SQClosure} {target base : ℤ} {tailcall ok : Bool}
    (h : vm.enterCall r closure target base tailcall = (vm', ok)) (hj : (vm.slot j).isSome) :
    vm'.slot j = vm.slot j := by
  simp only [enterCall] at h
  split at h
  · rename_i heq
    cases h
    exact slot_enterFrame heq hj
  · rename_i vm₁ heq
    cases h
    change vm₁.slot j = vm.slot j
    exact slot_enterFrame heq hj

theorem arrays_enterCall {r : ℕ} {closure : SQClosure} {target base : ℤ} {tailcall ok : Bool}
    (h : vm.enterCall r closure target base tailcall = (vm', ok)) : vm'.arrays = vm.arrays := by
  simp only [enterCall] at h
  split at h
  · rename_i heq
    cases h
    exact arrays_enterFrame heq
  · rename_i vm₁ heq
    cases h
    change vm₁.arrays = vm.arrays
    exact arrays_enterFrame heq

private theorem enterFrame_stackbase {newbase newtop : ℤ} {tailcall ok : Bool}
    (h : vm.enterFrame newbase newtop tailcall = (vm', ok)) : vm'.stackbase = newbase := by
  simp only [enterFrame] at h
  split_ifs at h
  all_goals
    cases h
    rfl

theorem enterCall_stackbase {r : ℕ} {closure : SQClosure} {target base : ℤ} {tailcall ok : Bool}
    (h : vm.enterCall r closure target base tailcall = (vm', ok)) : vm'.stackbase = base := by
  simp only [enterCall] at h
  split at h
  · rename_i heq
    cases h
    exact enterFrame_stackbase heq
  · rename_i vm₁ heq
    cases h
    change vm₁.stackbase = base
    exact enterFrame_stackbase heq

/-- A tail call finds `this` and its arguments in the first registers. -/
theorem moveArgs_spec {arg2 m : ℕ} (h : vm.moveArgs arg2 m n = some vm') :
    Wrote vm vm' ∧ (∀ j : ℤ, j < vm.stackbase + m → vm'.slot j = vm.slot j) ∧
      ∀ k < n, vm'.stk (m + k : ℕ) = vm.stk (arg2 + (m + k) : ℕ) := by
  induction n generalizing vm m with
  | zero =>
    cases h
    exact ⟨.refl _, fun _ _ => rfl, fun k hk => absurd hk k.not_lt_zero⟩
  | succ n ih =>
    obtain ⟨o, ho, h⟩ := Option.bind_eq_some_iff.mp h
    obtain ⟨vm₁, h₁, h⟩ := Option.bind_eq_some_iff.mp h
    obtain ⟨hwrote, hbelow, hmoved⟩ := ih h
    have hbase : vm₁.stackbase = vm.stackbase :=
      congrArg Snapshot.stackbase (stored_setSlot h₁).snapshot
    have hbase' : vm'.stackbase = vm₁.stackbase := by
      obtain ⟨_, _, rfl⟩ := hwrote
      rfl
    rw [hbase] at hbelow
    refine ⟨(wrote_setSlot h₁).trans hwrote, fun j hj => ?_, fun k hk => ?_⟩
    · rw [hbelow j (by omega), slot_setSlot_ne h₁ (by omega)]
    cases k with
    | zero =>
      have hself := slot_setSlot_self h₁
      rw [Nat.add_zero, stk, hbase', hbase, hbelow _ (by push_cast; omega), hself]
      exact ho.symm
    | succ k =>
      -- the slots still to be moved lie above the one written
      have hnext := hmoved k (Nat.lt_of_succ_lt_succ hk)
      rw [show m + (k + 1) = m + 1 + k by omega, hnext, stk, stk, hbase,
        slot_setSlot_ne h₁ (by push_cast; omega)]

theorem moveArgs_isSome {arg2 m : ℕ} (h0 : 0 ≤ vm.stackbase)
    (h1 : vm.stackbase + arg2 + m + n ≤ vm.stack.length) : (vm.moveArgs arg2 m n).isSome := by
  induction n generalizing vm m with
  | zero => rfl
  | succ n ih =>
    obtain ⟨o, ho⟩ := Option.isSome_iff_exists.mp
      ((@slot_isSome_iff vm (vm.stackbase + (arg2 + m))).mpr (by omega))
    obtain ⟨vm₁, h₁⟩ := Option.isSome_iff_exists.mp
      ((@setSlot_isSome_iff vm (vm.stackbase + m) o).mpr (by omega))
    have hlen := (stored_setSlot h₁).length_eq
    have hbase : vm₁.stackbase = vm.stackbase :=
      congrArg Snapshot.stackbase (stored_setSlot h₁).snapshot
    rw [moveArgs, stk, ho, Option.bind_some, setStk, h₁, Option.bind_some]
    exact ih (by omega) (by omega)

/-- Every parameter gets its slot before the frame is entered. -/
theorem placeArgs_room {closure : SQClosure} {nargs : ℕ} {base : ℤ}
    (hargs : base + nargs ≤ vm.stack.length)
    (h : vm.placeArgs closure nargs base = some (vm', true)) :
    base + closure.function.nparameters ≤ vm.stack.length := by
  have hlen := (stored_placeArgs h).length_eq
  rcases Nat.eq_zero_or_pos closure.function.nparameters with hzero | hpos
  · omega
  cases hv : closure.function.varparams with
  | true =>
    obtain ⟨-, -, a, -, ha, -⟩ := placeArgs_variadic hv h
    have := (slot_isSome_iff.mp (by rw [ha]; rfl : (vm'.slot _).isSome)).2
    omega
  | false =>
    obtain ⟨hle, hregs⟩ := placeArgs_fixed hv h
    rcases hle.eq_or_lt with heq | hlt
    · omega
    have hlast := hregs (closure.function.nparameters - 1) (by omega)
    have hacc := (placeArgs_accepts h).symm
    simp only [accepts, hv, Bool.false_eq_true, if_false, decide_eq_true_eq] at hacc
    rw [if_neg (by omega)] at hlast
    have hdef := closure.defaults
    have hsome : (vm'.slot (base + (closure.function.nparameters - 1 : ℕ))).isSome := by
      rw [hlast, isSome_getElem?]
      omega
    have := (slot_isSome_iff.mp hsome).2
    omega

theorem placeArgs_isSome {closure : SQClosure} {nargs : ℕ} {base : ℤ} (h0 : 0 ≤ base)
    (hargs : base + nargs ≤ vm.stack.length)
    (hparams : base + closure.function.nparameters ≤ vm.stack.length)
    (hvar : closure.function.varparams = true →
      base + (closure.function.nparameters - 1 : ℕ) < vm.stack.length) :
    (vm.placeArgs closure nargs base).isSome := by
  simp only [placeArgs]
  split_ifs with hv hlt hne hdef
  · rfl
  · have hpos := hvar hv
    obtain ⟨⟨vm₁, values⟩, h₁⟩ := Option.isSome_iff_exists.mp
      (@packVarArgs_isSome vm (base + (closure.function.nparameters - 1 : ℕ))
        (nargs - (closure.function.nparameters - 1)) (by omega) (by omega))
    have hlen := (stored_packVarArgs h₁).length_eq
    simp only at hlen
    rw [h₁, Option.bind_some, Option.isSome_map, setSlot_isSome_iff]
    simp only [createArray]
    omega
  · rw [Option.isSome_map]
    refine setSlots_isSome (by omega) ?_
    have hlen := closure.defaults
    rw [List.length_drop]
    omega
  · rfl
  · rfl

private theorem length_enterFrame {newbase newtop : ℤ} {tailcall ok : Bool}
    (h : vm.enterFrame newbase newtop tailcall = (vm', ok)) :
    vm.stack.length ≤ vm'.stack.length := by
  have hstack : (vm.pushFrame newbase newtop tailcall).stack = vm.stack := by
    unfold pushFrame growCallStack
    split_ifs <;> rfl
  simp only [enterFrame] at h
  split_ifs at h
  · cases h
    exact (congrArg List.length hstack).ge
  · cases h
    simp only [hstack, List.length_append]
    omega
  · cases h
    exact (congrArg List.length hstack).ge

private theorem length_enterCall {r : ℕ} {closure : SQClosure} {target base : ℤ}
    {tailcall ok : Bool}
    (h : vm.enterCall r closure target base tailcall = (vm', ok)) :
    vm.stack.length ≤ vm'.stack.length := by
  simp only [enterCall] at h
  split at h
  · rename_i heq
    cases h
    exact length_enterFrame heq
  · rename_i vm₁ heq
    cases h
    change vm.stack.length ≤ vm₁.stack.length
    exact length_enterFrame heq

private theorem enterFrame_lasterror {newbase newtop : ℤ} {tailcall : Bool}
    (h : vm.enterFrame newbase newtop tailcall = (vm', false)) :
    vm'.lasterror = .string "stack overflow, cannot resize stack while in  a metamethod" := by
  simp only [enterFrame] at h
  split_ifs at h
  · cases h
    rfl
  · cases (Prod.mk.inj h).2
  · cases (Prod.mk.inj h).2

private theorem enterCall_lasterror {r : ℕ} {closure : SQClosure} {target base : ℤ}
    {tailcall : Bool}
    (h : vm.enterCall r closure target base tailcall = (vm', false)) :
    vm'.lasterror = .string "stack overflow, cannot resize stack while in  a metamethod" := by
  simp only [enterCall] at h
  split at h
  · rename_i heq
    cases h
    exact enterFrame_lasterror heq
  · cases (Prod.mk.inj h).2

/-- `StartCall` has refused the number of arguments. -/
def Refused (r : Option (SQVM × Bool)) : Prop :=
  ∃ vm, r = some (vm, false) ∧ vm.lasterror = .string "wrong number of parameters"

theorem placeArgs_refuses {closure : SQClosure} {nargs : ℕ} {base : ℤ}
    (hacc : accepts closure.function nargs = false) :
    vm.placeArgs closure nargs base =
      some (vm.raiseError "wrong number of parameters", false) := by
  simp only [accepts] at hacc
  simp only [placeArgs]
  split_ifs at hacc ⊢ with hv hlt hne hdef
  · rfl
  · simp only [decide_eq_false_iff_not] at hacc
    omega
  · simp only [decide_eq_false_iff_not, not_or] at hacc
    exact absurd hdef hacc.2
  · rfl
  · simp only [decide_eq_false_iff_not, not_or] at hacc
    omega

theorem startCall_refuses_iff {r : ℕ} {closure : SQClosure} {target base : ℤ} {nargs : ℕ}
    {tailcall : Bool} (htail : tailcall = true → closure.function.bgenerator = false) :
    Refused (vm.startCall r closure target nargs base tailcall) ↔
      accepts closure.function nargs = false := by
  constructor
  · rintro ⟨vm', h, hlast⟩
    by_contra hacc
    simp only [startCall] at h
    obtain ⟨⟨vm₁, ok⟩, h₁, h⟩ := Option.bind_eq_some_iff.mp h
    obtain rfl : ok = true := (placeArgs_accepts h₁).trans (by simpa using hacc)
    obtain ⟨vm₂, h₂, h⟩ := Option.bind_eq_some_iff.mp h
    split at h
    · -- the error of `EnterFrame` is another one
      rename_i vm₃ heq
      have hover := enterCall_lasterror heq
      obtain rfl := (Prod.mk.inj (Option.some.inj h)).1
      rw [hover] at hlast
      exact absurd hlast (by simp)
    · rename_i vm₃ heq
      split_ifs at h with hgen
      · have hcall : tailcall = false := by
          by_contra htrue
          rw [htail (by simpa using htrue)] at hgen
          cases hgen
        rw [hcall] at heq
        obtain ⟨f, he, -, htraps, -, -⟩ := enterCall_spec heq
        have hcs : vm₃.callsstack = f :: vm₂.callsstack := congrArg Snapshot.callsstack he.snapshot
        cases (startGenerator_spec hcs htraps h).1
      · cases h
  · intro hacc
    refine ⟨vm.raiseError "wrong number of parameters", ?_, rfl⟩
    simp only [startCall, placeArgs_refuses hacc]
    rfl

/-- The generator a call makes has saved the frame of the call. -/
theorem startGenerator_saves {func : SQFunctionProto} {target : ℤ} {ok : Bool}
    (htop : vm.top = vm.stackbase + func.stacksize)
    (h : vm.startGenerator func target = some (vm', ok)) :
    vm'.arrays = vm.arrays ∧ ∃ gen, vm'.generators[vm.generators.length]? = some gen ∧
      gen.state = .suspended ∧ gen.stack.length = func.stacksize ∧
      ∀ k < func.stacksize, gen.stack[k]? = vm.slot (vm.stackbase + k) := by
  simp only [startGenerator] at h
  obtain ⟨vm₁, h₁, h⟩ := Option.bind_eq_some_iff.mp h
  obtain ⟨⟨vm₂, ok₂⟩, h₂, h⟩ := Option.bind_eq_some_iff.mp h
  obtain ⟨ci, hci, rfl⟩ := Option.map_eq_some_iff.mp h₁
  obtain ⟨fs, hcs⟩ : ∃ fs, vm.callsstack = ci :: fs := by
    cases hcs : vm.callsstack with
    | nil =>
      rw [hcs] at hci
      cases hci
    | cons f fs =>
      rw [hcs] at hci
      cases hci
      exact ⟨fs, rfl⟩
  simp only [yield, List.getElem?_concat_length, hcs] at h₂
  obtain ⟨frame, hframe, h₂⟩ := Option.bind_eq_some_iff.mp h₂
  obtain ⟨vm₃, h₃, h₂⟩ := Option.map_eq_some_iff.mp h₂
  cases h₂
  simp only [Bool.not_true, Bool.false_eq_true, if_false] at h
  obtain ⟨⟨vm₄, b, res⟩, h₄, h⟩ := Option.bind_eq_some_iff.mp h
  obtain ⟨vm₅, h₅, h⟩ := Option.map_eq_some_iff.mp h
  cases h
  have hsize : (vm.top - vm.stackbase).toNat = func.stacksize := by omega
  have hw₃ := wrote_setSlots h₃
  have hw₅ := wrote_setSlot h₅
  obtain ⟨hlen, hget⟩ := slots_eq_some hframe
  rw [hsize] at hlen hget
  have hcs₃ : vm₃.callsstack = ci :: fs := (stored_setSlots h₃).callsstack
  obtain ⟨-, -, hg₄, -⟩ := Return_spec (by exact hcs₃) h₄
  refine ⟨?_, ?_⟩
  · rw [hw₅.arrays, arrays_Return h₄]
    exact hw₃.arrays
  · rw [hw₅.generators, hg₄]
    simp only [hw₃.generators]
    refine ⟨_, List.getElem?_set_self ?_, rfl, ?_, fun k hk => ?_⟩
    · simp
    · simp [hsize]
    have hk' : k < (vm.top - vm.stackbase).toNat := by omega
    simp only [List.getElem?_map, List.getElem?_range hk', Option.map_some, if_pos (Or.inr hk)]
    have hslot := hget k hk
    rw [List.getD_eq_getElem?_getD]
    have hsome : frame[k]? = some frame[k] := List.getElem?_eq_getElem (by omega)
    rw [hsome, Option.getD_some, ← hsome, ← hslot]
    rfl

private theorem leaveFrame_isSome {ci : CallInfo} {rest : List CallInfo}
    (hcs : vm.callsstack = ci :: rest) (h0 : 0 ≤ vm.stackbase - ci.prevstkbase + ci.prevtop)
    (htop : 0 ≤ vm.top) (hlen : vm.top < vm.stack.length) : vm.leaveFrame.isSome := by
  rw [leaveFrame, hcs]
  refine nullDown_isSome ?_ hlen
  omega

private theorem enterFrame_ok {newbase newtop : ℤ} {tailcall ok : Bool}
    (h : vm.enterFrame newbase newtop tailcall = (vm', ok)) (hroom : vm.HasRoom newtop) :
    ok = true := by
  obtain ⟨hstack, hmeta⟩ : (vm.pushFrame newbase newtop tailcall).stack = vm.stack ∧
      (vm.pushFrame newbase newtop tailcall).nmetamethodscall = vm.nmetamethodscall := by
    unfold pushFrame growCallStack
    split_ifs <;> exact ⟨rfl, rfl⟩
  rw [HasRoom, ← hstack, ← hmeta] at hroom
  simp only [enterFrame] at h
  split_ifs at h
  · omega
  · cases h
    rfl
  · cases h
    rfl

private theorem enterCall_ok {r : ℕ} {closure : SQClosure} {target base : ℤ} {tailcall ok : Bool}
    (h : vm.enterCall r closure target base tailcall = (vm', ok))
    (hroom : vm.HasRoom (base + closure.function.stacksize)) : ok = true := by
  simp only [enterCall] at h
  split at h
  · rename_i heq
    cases enterFrame_ok heq hroom
  · cases h
    rfl

/-- A call that gets its frame. -/
theorem startCall_isSome {r : ℕ} {closure : SQClosure} {target base : ℤ} {nargs : ℕ}
    {tailcall : Bool} (hgen : closure.function.bgenerator = false)
    (hacc : accepts closure.function nargs = true)
    (hplace : (vm.placeArgs closure nargs base).isSome)
    (h0 : 0 ≤ base) (hlen : base < vm.stack.length)
    (hroom : vm.HasRoom (base + closure.function.stacksize)) :
    ∃ vm', vm.startCall r closure target nargs base tailcall = some (vm', true) := by
  obtain ⟨⟨vm₁, ok⟩, h₁⟩ := Option.isSome_iff_exists.mp hplace
  obtain rfl : ok = true := (placeArgs_accepts h₁).trans hacc
  have hst₁ := stored_placeArgs h₁
  obtain ⟨vm₂, h₂⟩ := Option.isSome_iff_exists.mp (@placeEnv_isSome vm₁ base closure.env h0
    (hst₁.length_eq.symm ▸ hlen))
  have hst₂ := hst₁.trans (stored_placeEnv h₂)
  cases hent : vm₂.enterCall r closure target base tailcall with
  | mk vm₃ ok₃ =>
    obtain rfl : ok₃ = true := enterCall_ok hent (hst₂.hasRoom.mpr hroom)
    refine ⟨vm₃, ?_⟩
    simp only [startCall, h₁, Option.bind_some, h₂, hent, hgen, Bool.not_true,
      Bool.false_eq_true, if_false]

/-- The frame of a call. -/
theorem enterCall_callsstack {r : ℕ} {closure : SQClosure} {target base : ℤ}
    (h : vm.enterCall r closure target base false = (vm', true)) :
    vm'.callsstack = { vm.newCallInfo base with closure := .closure r, target := target } ::
      vm.callsstack := by
  simp only [enterCall] at h
  split at h
  · cases h
  · rename_i vm₁ heq
    cases h
    obtain ⟨he, -, -⟩ := enterFrame_spec heq
    have hcs : vm₁.callsstack = vm.newCallInfo base :: vm.callsstack :=
      congrArg Snapshot.callsstack he.snapshot
    simp only [setCi, hcs, List.modifyHead_cons]

private theorem leaveFrame_length (h : vm.leaveFrame = some vm') :
    vm'.stack.length = vm.stack.length := by
  unfold leaveFrame at h
  split at h
  · cases h
  · exact (stored_nullDown h).length_eq

private theorem Return_length {arg0 arg1 : ℤ} {b : Bool} {res : SQObject}
    (h : vm.Return arg0 arg1 = some (vm', b, res)) : vm'.stack.length = vm.stack.length := by
  unfold Return at h
  split at h
  · cases h
  · simp only at h
    generalize (if arg0 ≠ 255 then vm.slot (vm.stackbase + arg1) else some .null) = value at h
    split_ifs at h
    · obtain ⟨v, _, h⟩ := Option.bind_eq_some_iff.mp h
      obtain ⟨vm₁, h₁, h⟩ := Option.map_eq_some_iff.mp h
      cases h
      exact leaveFrame_length h₁
    · obtain ⟨vm₁, h₁, h⟩ := Option.map_eq_some_iff.mp h
      cases h
      exact leaveFrame_length h₁
    · obtain ⟨v, _, h⟩ := Option.bind_eq_some_iff.mp h
      obtain ⟨vm₁, h₁, h⟩ := Option.bind_eq_some_iff.mp h
      obtain ⟨vm₂, h₂, h⟩ := Option.map_eq_some_iff.mp h
      cases h
      exact (leaveFrame_length h₂).trans (stored_setSlot h₁).length_eq

private theorem yield_length {g target : ℕ} {ok : Bool} (h : vm.yield g target = some (vm', ok)) :
    vm'.stack.length = vm.stack.length := by
  unfold yield at h
  split at h
  · split at h
    · cases h
      rfl
    · cases h
      rfl
    · obtain ⟨frame, _, h⟩ := Option.bind_eq_some_iff.mp h
      obtain ⟨vm₁, h₁, h⟩ := Option.map_eq_some_iff.mp h
      cases h
      exact (stored_setSlots h₁).length_eq
  · cases h

private theorem yield_isSome {g target : ℕ} {gen : SQGenerator} (hcs : vm.callsstack ≠ [])
    (hgen : vm.generators[g]? = some gen) (hbase : 0 ≤ vm.stackbase)
    (htop : vm.stackbase ≤ vm.top ∧ vm.top ≤ vm.stack.length) :
    (vm.yield g target).isSome := by
  obtain ⟨ci, rest, hcs⟩ := List.exists_cons_of_ne_nil hcs
  simp only [yield, hgen, hcs]
  split
  · rfl
  · rfl
  · obtain ⟨frame, hframe⟩ := Option.isSome_iff_exists.mp
      (@slots_isSome vm vm.stackbase (vm.top - vm.stackbase).toNat hbase (by omega))
    rw [hframe, Option.bind_some, Option.isSome_map]
    refine setSlots_isSome hbase ?_
    rw [List.length_replicate]
    omega

private theorem Return_isSome {ci : CallInfo} {rest : List CallInfo} {arg0 arg1 : ℤ}
    (hcs : vm.callsstack = ci :: rest)
    (hcaller : 0 ≤ vm.stackbase - ci.prevstkbase + ci.prevtop)
    (htop : 0 ≤ vm.top ∧ vm.top < vm.stack.length)
    (hvalue : (vm.slot (vm.stackbase + arg1)).isSome)
    (htarget : (vm.slot (vm.stackbase - ci.prevstkbase + ci.target)).isSome) :
    (vm.Return arg0 arg1).isSome := by
  obtain ⟨v, hv⟩ := Option.isSome_iff_exists.mp hvalue
  obtain ⟨value, hval⟩ : ∃ value,
      (if arg0 ≠ 255 then vm.slot (vm.stackbase + arg1) else some .null) = some value := by
    split_ifs
    · exact ⟨v, hv⟩
    · exact ⟨.null, rfl⟩
  have hleave := leaveFrame_isSome hcs hcaller htop.1 htop.2
  simp only [Return, hcs, hval, Option.bind_some]
  split_ifs
  · rwa [Option.isSome_map]
  · rwa [Option.isSome_map]
  · obtain ⟨vm₁, h₁⟩ := Option.isSome_iff_exists.mp
      ((@setSlot_isSome_iff vm _ value).mpr (slot_isSome_iff.mp htarget))
    have hst := stored_setSlot h₁
    have hlen := hst.length_eq
    have hsnap := hst.snapshot
    have hcs₁ : vm₁.callsstack = ci :: rest := hst.callsstack.trans hcs
    have hbase₁ : vm₁.stackbase = vm.stackbase := congrArg Snapshot.stackbase hsnap
    have htop₁ : vm₁.top = vm.top := congrArg Snapshot.top hsnap
    rw [h₁, Option.bind_some, Option.isSome_map]
    refine leaveFrame_isSome hcs₁ ?_ ?_ ?_
    · rw [hbase₁]
      exact hcaller
    · omega
    · omega

/-- A generator is made of a frame that lies in the stack with the slots it is delivered to. -/
theorem startGenerator_isSome {func : SQFunctionProto} {target : ℤ} {ci : CallInfo}
    {rest : List CallInfo} (hcs : vm.callsstack = ci :: rest) (htraps : ci.etraps = 0)
    (hbase : 0 ≤ vm.stackbase) (htop : vm.stackbase ≤ vm.top ∧ vm.top < vm.stack.length)
    (hcaller : 0 ≤ vm.stackbase - ci.prevstkbase + ci.prevtop)
    (hci : (vm.slot (vm.stackbase - ci.prevstkbase + ci.target)).isSome)
    (hvalue : (vm.slot (vm.stackbase + target)).isSome)
    (hresult : (vm.slot (vm.stackbase - ci.prevstkbase + target)).isSome) :
    ∃ vm', vm.startGenerator func target = some (vm', true) := by
  suffices h : (vm.startGenerator func target).isSome by
    obtain ⟨⟨vm', ok⟩, h⟩ := Option.isSome_iff_exists.mp h
    obtain ⟨rfl, -⟩ := startGenerator_spec hcs htraps h
    exact ⟨vm', h⟩
  have hhead : vm.callsstack.head? = some ci := by rw [hcs]; rfl
  simp only [startGenerator, createGenerator, hhead, Option.map_some, Option.bind_some]
  obtain ⟨⟨vm₁, ok⟩, h₁⟩ := Option.isSome_iff_exists.mp
    (@yield_isSome { vm with generators := vm.generators ++
        [{ state := .running, stack := [], ci := ci, etraps := [] }] }
      vm.generators.length func.stacksize _ (by simp [hcs]) List.getElem?_concat_length
      hbase ⟨htop.1, htop.2.le⟩)
  have hlen₁ := yield_length h₁
  obtain ⟨hsnap, -, -, hok⟩ := yield_spec (by exact hcs) h₁
  obtain rfl : ok = true := hok (by simp)
  have hcs₁ : vm₁.callsstack = ci :: rest := (congrArg Snapshot.callsstack hsnap).trans hcs
  have hbase₁ : vm₁.stackbase = vm.stackbase := congrArg Snapshot.stackbase hsnap
  have htop₁ : vm₁.top = vm.top := congrArg Snapshot.top hsnap
  simp only [slot_isSome_iff] at hci hvalue hresult
  simp only at hlen₁
  obtain ⟨⟨vm₂, b, res⟩, h₂⟩ := Option.isSome_iff_exists.mp
    (@Return_isSome vm₁ ci rest 1 target hcs₁ (by omega) (by omega)
      (by rw [slot_isSome_iff]; omega) (by rw [slot_isSome_iff]; omega))
  obtain ⟨-, hsnap₂, -, -⟩ := Return_spec hcs₁ h₂
  have hbase₂ : vm₂.stackbase = vm₁.stackbase - ci.prevstkbase :=
    congrArg Snapshot.stackbase hsnap₂
  have hlen₂ := Return_length h₂
  rw [h₁, Option.bind_some]
  simp only [Bool.not_true, Bool.false_eq_true, if_false, h₂, Option.bind_some, Option.isSome_map]
  rw [setStk, setSlot_isSome_iff]
  omega

/-- A call of a function, or of a generator function, with all its slots in the stack. -/
theorem startCall_isSome_of_room {r : ℕ} {closure : SQClosure} {target base : ℤ} {nargs : ℕ}
    (hacc : accepts closure.function nargs = true)
    (hplace : (vm.placeArgs closure nargs base).isSome)
    (hbase : 0 ≤ base) (hcaller : 0 ≤ vm.stackbase ∧ 0 ≤ vm.top)
    (htarget : 0 ≤ target ∧ base + target < vm.stack.length ∧
      vm.stackbase + target < vm.stack.length)
    (hroom : base + closure.function.stacksize + MIN_STACK_OVERHEAD ≤ vm.stack.length) :
    ∃ vm', vm.startCall r closure target nargs base false = some (vm', true) := by
  have hmin : MIN_STACK_OVERHEAD = 15 := rfl
  cases hgen : closure.function.bgenerator with
  | false => exact startCall_isSome hgen hacc hplace hbase (by omega) (.inl hroom)
  | true =>
    obtain ⟨⟨vm₁, ok⟩, h₁⟩ := Option.isSome_iff_exists.mp hplace
    obtain rfl : ok = true := (placeArgs_accepts h₁).trans hacc
    have hst₁ := stored_placeArgs h₁
    have hlen₁ := hst₁.length_eq
    obtain ⟨vm₂, h₂⟩ := Option.isSome_iff_exists.mp
      (@placeEnv_isSome vm₁ base closure.env hbase (by omega))
    have hst₂ := hst₁.trans (stored_placeEnv h₂)
    have hlen₂ := hst₂.length_eq
    have hsnap₂ := hst₂.snapshot
    have hbase₂ : vm₂.stackbase = vm.stackbase := congrArg Snapshot.stackbase hsnap₂
    have htop₂ : vm₂.top = vm.top := congrArg Snapshot.top hsnap₂
    cases hent : vm₂.enterCall r closure target base false with
    | mk vm₃ ok₃ =>
      obtain ⟨f, he, -, -, -, hok⟩ := enterCall_spec hent
      obtain rfl : ok₃ = true := hok.mpr (.inl (by omega))
      have hcs₃ := enterCall_callsstack hent
      have hbase₃ : vm₃.stackbase = base := congrArg Snapshot.stackbase he.snapshot
      have htop₃ : vm₃.top = base + closure.function.stacksize :=
        congrArg Snapshot.top he.snapshot
      have hlen₃ : vm₂.stack.length ≤ vm₃.stack.length := length_enterCall hent
      obtain ⟨vm', h'⟩ := @startGenerator_isSome vm₃ closure.function target _ _ hcs₃ rfl
        (by omega) (by omega) (by simp only [newCallInfo]; omega)
        (by rw [slot_isSome_iff]; simp only [newCallInfo]; omega)
        (by rw [slot_isSome_iff]; omega)
        (by rw [slot_isSome_iff]; simp only [newCallInfo]; omega)
      refine ⟨vm', ?_⟩
      simp only [startCall, h₁, Option.bind_some, h₂, hent, hgen, Bool.not_true,
        Bool.false_eq_true, if_false, if_true, h']

end Squirt.SQVM
