import Mathlib.Algebra.Order.Ring.Int
import Squirt.VmMachine

/-!
# What the functions of the VM do to its frames

Each function is described by the frames, the bases and the traps it leaves.
-/

namespace Squirt

namespace Snapshot

/-- Frame `f` comes on top; it starts at `newbase`. -/
def enter (s : Snapshot) (f : CallInfo) (newbase newtop : ℤ) : Snapshot :=
  { s with callsstack := f :: s.callsstack, stackbase := newbase, top := newtop }

/-- The frame `ci` on top of `rest` is left. -/
def leave (s : Snapshot) (ci : CallInfo) (rest : List CallInfo) : Snapshot :=
  { s with
    callsstack := rest
    stackbase := s.stackbase - ci.prevstkbase
    top := s.stackbase - ci.prevstkbase + ci.prevtop }

/-- A frame that remembers where its caller stands. -/
structure Remembers (s : Snapshot) (f : CallInfo) (newbase : ℤ) : Prop where
  prevstkbase : f.prevstkbase = newbase - s.stackbase
  prevtop : f.prevtop = s.top - s.stackbase

end Snapshot

namespace SQVM

variable {vm vm' vm'' : SQVM}

/-- A suspended generator holds the traps its frame had. -/
def GeneratorsOk (vm : SQVM) : Prop :=
  ∀ gen ∈ vm.generators, gen.state = .suspended → gen.ci.etraps ≤ gen.etraps.length

/-- Nothing changes but slots, arrays, instances and the last error. -/
def Stored (vm vm' : SQVM) : Prop :=
  ∃ stack arrays lasterror ninstances, stack.length = vm.stack.length ∧ vm' = { vm with
    stack := stack, arrays := arrays, lasterror := lasterror, ninstances := ninstances }

/-- The block the call stack is in. -/
def block (vm : SQVM) : ℕ := vm.callstackdata vm.grows

/-- The block the call stack is in after one more frame. -/
def nextBlock (vm : SQVM) : ℕ := vm.growCallStack.block

/-- What no call touches. -/
structure Kept (vm vm' : SQVM) : Prop where
  suspended : vm'.suspended = vm.suspended
  suspendedRoot : vm'.suspendedRoot = vm.suspendedRoot
  nmetamethodscall : vm'.nmetamethodscall = vm.nmetamethodscall

/-- What no function touches that enters no frame. -/
structure Stays (vm vm' : SQVM) : Prop extends Kept vm vm' where
  block : vm'.block = vm.block

theorem Stored.refl (vm : SQVM) : Stored vm vm := ⟨_, _, _, _, rfl, rfl⟩

theorem Stored.trans (h : Stored vm vm') (h' : Stored vm' vm'') : Stored vm vm'' := by
  obtain ⟨_, _, _, _, hlen, rfl⟩ := h
  obtain ⟨st, ar, e, n, hlen', rfl⟩ := h'
  exact ⟨st, ar, e, n, hlen'.trans hlen, rfl⟩

theorem Stored.length_eq (h : Stored vm vm') : vm'.stack.length = vm.stack.length := by
  obtain ⟨_, _, _, _, hlen, rfl⟩ := h
  exact hlen

theorem Stored.snapshot (h : Stored vm vm') : vm'.snapshot = vm.snapshot := by
  obtain ⟨_, _, _, _, -, rfl⟩ := h
  rfl

theorem Stored.stays (h : Stored vm vm') : Stays vm vm' := by
  obtain ⟨_, _, _, _, -, rfl⟩ := h
  exact ⟨⟨rfl, rfl, rfl⟩, rfl⟩

theorem Stored.generators (h : Stored vm vm') : vm'.generators = vm.generators := by
  obtain ⟨_, _, _, _, -, rfl⟩ := h
  rfl

theorem GeneratorsOk.of_eq (h : vm.GeneratorsOk) (heq : vm'.generators = vm.generators) :
    vm'.GeneratorsOk := by
  unfold GeneratorsOk
  rw [heq]
  exact h

theorem Stored.callsstack (h : Stored vm vm') : vm'.callsstack = vm.callsstack := by
  obtain ⟨_, _, _, _, -, rfl⟩ := h
  rfl

theorem Stored.nextBlock (h : Stored vm vm') : vm'.nextBlock = vm.nextBlock := by
  obtain ⟨_, _, _, _, -, rfl⟩ := h
  simp only [SQVM.nextBlock, growCallStack]
  split_ifs <;> rfl

theorem Kept.trans (h : Kept vm vm') (h' : Kept vm' vm'') : Kept vm vm'' where
  suspended := h'.suspended.trans h.suspended
  suspendedRoot := h'.suspendedRoot.trans h.suspendedRoot
  nmetamethodscall := h'.nmetamethodscall.trans h.nmetamethodscall

theorem Stays.trans (h : Stays vm vm') (h' : Stays vm' vm'') : Stays vm vm'' :=
  ⟨h.toKept.trans h'.toKept, h'.block.trans h.block⟩

theorem stored_raiseError (vm : SQVM) (s : String) : Stored vm (vm.raiseError s) :=
  ⟨_, _, _, _, rfl, rfl⟩

theorem stored_setSlot {i : ℤ} {o : SQObject} (h : vm.setSlot i o = some vm') :
    Stored vm vm' := by
  unfold setSlot at h
  split at h
  · exact Option.some.inj h ▸ ⟨_, _, _, _, by simp, rfl⟩
  · cases h

theorem stored_setSlots {i : ℤ} {os : List SQObject} (h : vm.setSlots i os = some vm') :
    Stored vm vm' := by
  induction os generalizing vm i with
  | nil => exact Option.some.inj h ▸ .refl vm
  | cons o os ih =>
    obtain ⟨vm₁, h₁, h₂⟩ := Option.bind_eq_some_iff.mp h
    exact (stored_setSlot h₁).trans (ih h₂)

theorem stored_nullDown {last_top : ℤ} {n : ℕ} (h : vm.nullDown last_top n = some vm') :
    Stored vm vm' := by
  induction n generalizing vm last_top with
  | zero => exact Option.some.inj h ▸ .refl vm
  | succ n ih =>
    obtain ⟨vm₁, h₁, h₂⟩ := Option.bind_eq_some_iff.mp h
    exact (stored_setSlot h₁).trans (ih h₂)

theorem stored_placeEnv {env : Option SQObject} {stackbase : ℤ}
    (h : vm.placeEnv env stackbase = some vm') : Stored vm vm' := by
  cases env with
  | none => exact Option.some.inj h ▸ .refl vm
  | some o => exact stored_setSlot h

theorem stored_moveArgs {arg2 i n : ℕ} (h : vm.moveArgs arg2 i n = some vm') :
    Stored vm vm' := by
  induction n generalizing vm i with
  | zero => exact Option.some.inj h ▸ .refl vm
  | succ n ih =>
    obtain ⟨o, _, h₁⟩ := Option.bind_eq_some_iff.mp h
    obtain ⟨vm₁, h₂, h₃⟩ := Option.bind_eq_some_iff.mp h₁
    exact (stored_setSlot h₂).trans (ih h₃)

theorem stored_deliver {arg0 : BitVec 8} {o : SQObject} (h : vm.deliver arg0 o = some vm') :
    Stored vm vm' := by
  unfold deliver at h
  split at h
  · exact stored_setSlot h
  · exact Option.some.inj h ▸ .refl vm

theorem stored_packVarArgs {pbase : ℤ} {n : ℕ} {r : SQVM × List SQObject}
    (h : vm.packVarArgs pbase n = some r) : Stored vm r.1 := by
  induction n generalizing vm pbase r with
  | zero => exact Option.some.inj h ▸ .refl vm
  | succ n ih =>
    obtain ⟨o, _, h₁⟩ := Option.bind_eq_some_iff.mp h
    obtain ⟨vm₁, h₂, h₃⟩ := Option.bind_eq_some_iff.mp h₁
    obtain ⟨r', h₄, rfl⟩ := Option.map_eq_some_iff.mp h₃
    exact (stored_setSlot h₂).trans (@ih _ _ r' h₄)

theorem stored_createInstance (vm : SQVM) : Stored vm vm.createInstance.1 :=
  ⟨_, _, _, _, rfl, rfl⟩

theorem stored_placeArgs {closure : SQClosure} {nargs : ℕ} {stackbase : ℤ} {ok : Bool}
    (h : vm.placeArgs closure nargs stackbase = some (vm', ok)) : Stored vm vm' := by
  simp only [placeArgs] at h
  split_ifs at h
  · cases h
    exact stored_raiseError vm _
  · obtain ⟨r, h₁, h₂⟩ := Option.bind_eq_some_iff.mp h
    obtain ⟨vm₂, h₃, h₄⟩ := Option.map_eq_some_iff.mp h₂
    cases h₄
    exact (stored_packVarArgs h₁).trans 
      (Stored.trans ⟨_, _, _, _, rfl, rfl⟩ (stored_setSlot h₃))
  · obtain ⟨vm₁, h₁, h₂⟩ := Option.map_eq_some_iff.mp h
    cases h₂
    exact stored_setSlots h₁
  · cases h
    exact stored_raiseError vm _
  · cases h
    exact .refl vm

theorem push_spec {o : SQObject} (h : vm.push o = some vm') :
    ∃ vm₁, Stored vm vm₁ ∧ vm' = { vm₁ with top := vm.top + 1 } := by
  obtain ⟨vm₁, h₁, rfl⟩ := Option.map_eq_some_iff.mp h
  have hs := stored_setSlot h₁
  refine ⟨vm₁, hs, ?_⟩
  have htop : vm₁.top = vm.top := congrArg Snapshot.top hs.snapshot
  rw [htop]

theorem pushAll_spec {os : List SQObject} (h : vm.pushAll os = some vm') :
    ∃ vm₁, Stored vm vm₁ ∧ vm' = { vm₁ with top := vm.top + os.length } := by
  induction os generalizing vm with
  | nil => exact ⟨vm, .refl vm, by simp [← Option.some.inj h]⟩
  | cons o os ih =>
    obtain ⟨vm₁, h₁, h₂⟩ := Option.bind_eq_some_iff.mp h
    obtain ⟨vm₂, hs, rfl⟩ := push_spec h₁
    obtain ⟨vm₃, hs', rfl⟩ := ih h₂
    obtain ⟨_, _, _, _, hlen, rfl⟩ := hs
    obtain ⟨st, ar, e, n, hlen', rfl⟩ := hs'
    refine ⟨_, ⟨st, ar, e, n, hlen'.trans hlen, rfl⟩, ?_⟩
    simp only [List.length_cons, SQVM.mk.injEq, and_true, true_and]
    omega

theorem pop_spec {n : ℕ} (h : vm.pop n = some vm') :
    ∃ vm₁, Stored vm vm₁ ∧ vm' = { vm₁ with top := vm.top - n } := by
  induction n generalizing vm with
  | zero => exact ⟨vm, .refl vm, by simp [← Option.some.inj h]⟩
  | succ n ih =>
    obtain ⟨vm₁, h₁, h₂⟩ := Option.bind_eq_some_iff.mp h
    obtain ⟨_, _, _, _, hlen, rfl⟩ := stored_setSlot h₁
    obtain ⟨vm₂, hs, rfl⟩ := ih h₂
    obtain ⟨st, ar, e, k, hlen', rfl⟩ := hs
    refine ⟨_, ⟨st, ar, e, k, hlen'.trans hlen, rfl⟩, ?_⟩
    simp only [SQVM.mk.injEq, and_true, true_and]
    omega

theorem findOuter_spec (vm : SQVM) (stackindex : ℤ) :
    ∃ outers, vm.findOuter stackindex = { vm with openouters := outers } := by
  simp only [findOuter]
  split_ifs
  · exact ⟨vm.openouters, rfl⟩
  · exact ⟨_, rfl⟩

theorem setCi_callsstack {ci : CallInfo} {rest : List CallInfo}
    (h : vm.callsstack = ci :: rest) (f : CallInfo → CallInfo) :
    (vm.setCi f).callsstack = f ci :: rest := by
  simp only [setCi, h, List.modifyHead_cons]

/-- Frame `f` has been entered. -/
structure Entered (vm vm' : SQVM) (f : CallInfo) (newbase newtop : ℤ) : Prop where
  snapshot : vm'.snapshot = vm.snapshot.enter f newbase newtop
  remembers : vm.snapshot.Remembers f newbase
  kept : Kept vm vm'
  block : vm'.block = vm.nextBlock

theorem Entered.after (h : Stored vm vm') {f : CallInfo} {newbase newtop : ℤ}
    (he : Entered vm' vm'' f newbase newtop) : Entered vm vm'' f newbase newtop where
  snapshot := h.snapshot ▸ he.snapshot
  remembers := h.snapshot ▸ he.remembers
  kept := h.stays.toKept.trans he.kept
  block := he.block.trans h.nextBlock

theorem Entered.store {f : CallInfo} {newbase newtop : ℤ}
    (he : Entered vm vm' f newbase newtop) (h : Stored vm' vm'') :
    Entered vm vm'' f newbase newtop where
  snapshot := h.snapshot.trans he.snapshot
  remembers := he.remembers
  kept := he.kept.trans h.stays.toKept
  block := h.stays.block.trans he.block

/-- The frame keeps what it remembers when its other fields are set. -/
theorem Entered.setCi {f : CallInfo} {newbase newtop : ℤ}
    (he : Entered vm vm' f newbase newtop) (g : CallInfo → CallInfo)
    (hbase : (g f).prevstkbase = f.prevstkbase) (htop : (g f).prevtop = f.prevtop) :
    Entered vm (vm'.setCi g) (g f) newbase newtop where
  snapshot := by
    have hcs : vm'.callsstack = f :: vm.callsstack := congrArg Snapshot.callsstack he.snapshot
    have hs : (vm'.setCi g).snapshot =
        { vm'.snapshot with callsstack := vm'.callsstack.modifyHead g } := rfl
    rw [hs, he.snapshot, hcs]
    rfl
  remembers := ⟨hbase.trans he.remembers.prevstkbase, htop.trans he.remembers.prevtop⟩
  kept := he.kept.trans ⟨rfl, rfl, rfl⟩
  block := he.block

/-- The frame fits on the stack, or the stack may grow. -/
def HasRoom (vm : SQVM) (newtop : ℤ) : Prop :=
  newtop + MIN_STACK_OVERHEAD ≤ vm.stack.length ∨ vm.nmetamethodscall = 0

private theorem pushFrame_spec (vm : SQVM) (newbase newtop : ℤ) :
    Entered vm (vm.pushFrame newbase newtop false) (vm.newCallInfo newbase) newbase newtop ∧
      (vm.pushFrame newbase newtop false).generators = vm.generators ∧
      (vm.pushFrame newbase newtop false).stack = vm.stack ∧
      (vm.pushFrame newbase newtop false).nmetamethodscall = vm.nmetamethodscall := by
  simp only [pushFrame, growCallStack, Bool.false_eq_true, if_false]
  split_ifs with hfull
  · exact ⟨⟨rfl, ⟨rfl, rfl⟩, ⟨rfl, rfl, rfl⟩, by simp [SQVM.nextBlock, growCallStack, hfull]; rfl⟩,
      rfl, rfl, rfl⟩
  · exact ⟨⟨rfl, ⟨rfl, rfl⟩, ⟨rfl, rfl, rfl⟩, by simp [SQVM.nextBlock, growCallStack, hfull]; rfl⟩,
      rfl, rfl, rfl⟩

theorem Stored.hasRoom {newtop : ℤ} (h : Stored vm vm') :
    vm'.HasRoom newtop ↔ vm.HasRoom newtop := by
  rw [HasRoom, HasRoom, h.length_eq, h.stays.nmetamethodscall]

theorem enterFrame_spec {newbase newtop : ℤ} {ok : Bool}
    (h : vm.enterFrame newbase newtop false = (vm', ok)) :
    Entered vm vm' (vm.newCallInfo newbase) newbase newtop ∧
      vm'.generators = vm.generators ∧ (ok = true ↔ vm.HasRoom newtop) := by
  obtain ⟨hpush, hgen, hstack, hmeta⟩ := vm.pushFrame_spec newbase newtop
  simp only [enterFrame] at h
  split_ifs at h with hsize hm
  · cases h
    refine ⟨hpush.store (stored_raiseError _ _), hgen, ?_⟩
    simp only [HasRoom, Bool.false_eq_true, false_iff, ← hstack, ← hmeta]
    omega
  · cases h
    refine ⟨⟨hpush.snapshot, hpush.remembers, hpush.kept.trans ⟨rfl, rfl, rfl⟩, hpush.block⟩,
      hgen, ?_⟩
    simp only [HasRoom, true_iff, ← hstack, ← hmeta]
    omega
  · cases h
    refine ⟨hpush, hgen, ?_⟩
    simp only [HasRoom, true_iff, ← hstack, ← hmeta]
    omega

/-- A tail call keeps the frame. -/
theorem enterFrame_tail {newbase newtop : ℤ} {ok : Bool}
    (h : vm.enterFrame newbase newtop true = (vm', ok)) :
    vm'.snapshot = { vm.snapshot with
      callsstack := vm.callsstack.modifyHead fun ci => { ci with ncalls := ci.ncalls + 1 }
      stackbase := newbase, top := newtop } ∧
      vm'.generators = vm.generators ∧ Kept vm vm' := by
  simp only [enterFrame, pushFrame] at h
  split_ifs at h
  all_goals
    cases h
    exact ⟨rfl, rfl, rfl, rfl, rfl⟩

theorem leaveFrame_spec {ci : CallInfo} {rest : List CallInfo}
    (hcs : vm.callsstack = ci :: rest) (h : vm.leaveFrame = some vm') :
    vm'.snapshot = vm.snapshot.leave ci rest ∧ vm'.generators = vm.generators ∧
      Stays vm vm' := by
  simp only [leaveFrame, hcs] at h
  obtain ⟨_, _, _, _, -, rfl⟩ := stored_nullDown h
  exact ⟨rfl, rfl, ⟨rfl, rfl, rfl⟩, rfl⟩

theorem Return_spec {ci : CallInfo} {rest : List CallInfo} {arg0 arg1 : ℤ} {b : Bool}
    {res : SQObject} (hcs : vm.callsstack = ci :: rest)
    (h : vm.Return arg0 arg1 = some (vm', b, res)) :
    b = ci.root ∧ vm'.snapshot = vm.snapshot.leave ci rest ∧
      vm'.generators = vm.generators ∧ Stays vm vm' := by
  simp only [Return, hcs] at h
  generalize (if arg0 ≠ 255 then vm.slot (vm.stackbase + arg1) else some .null) = value at h
  split_ifs at h with hroot htarget
  · obtain ⟨v, _, h⟩ := Option.bind_eq_some_iff.mp h
    obtain ⟨vm₁, h₁, h⟩ := Option.map_eq_some_iff.mp h
    cases h
    exact ⟨hroot.symm, leaveFrame_spec hcs h₁⟩
  · obtain ⟨vm₁, h₁, h⟩ := Option.map_eq_some_iff.mp h
    cases h
    exact ⟨(Bool.eq_false_iff.mpr hroot).symm, leaveFrame_spec hcs h₁⟩
  · obtain ⟨v, _, h⟩ := Option.bind_eq_some_iff.mp h
    obtain ⟨vm₁, h₁, h⟩ := Option.bind_eq_some_iff.mp h
    obtain ⟨vm₂, h₂, h⟩ := Option.map_eq_some_iff.mp h
    cases h
    have hst := stored_setSlot h₁
    obtain ⟨hs, hg, hk⟩ := leaveFrame_spec (hst.callsstack.trans hcs) h₂
    exact ⟨(Bool.eq_false_iff.mpr hroot).symm, hst.snapshot ▸ hs, hg.trans hst.generators,
      hst.stays.trans hk⟩

/-- A generator keeps its traps in order. -/
theorem GeneratorsOk.set (h : vm.GeneratorsOk) (g : ℕ) {gen : SQGenerator}
    (hgen : gen.state = .suspended → gen.ci.etraps ≤ gen.etraps.length)
    (heq : vm'.generators = vm.generators.set g gen) : vm'.GeneratorsOk := by
  intro gen' hmem
  rw [heq] at hmem
  rcases List.mem_or_eq_of_mem_set hmem with hmem | rfl
  · exact h gen' hmem
  · exact hgen

theorem yield_spec {ci : CallInfo} {rest : List CallInfo} {g target : ℕ} {ok : Bool}
    (hcs : vm.callsstack = ci :: rest) (h : vm.yield g target = some (vm', ok)) :
    vm'.snapshot = (if ok then { vm.snapshot with etraps := vm.etraps.drop ci.etraps }
      else vm.snapshot) ∧ Stays vm vm' ∧
      (ci.etraps ≤ vm.etraps.length → vm.GeneratorsOk → vm'.GeneratorsOk) ∧
      ((vm.generators[g]?).map SQGenerator.state = some .running → ok = true) := by
  simp only [yield, hcs] at h
  split at h
  · rename_i gen _ hgen hci
    cases hci
    split at h
    · rename_i hstate
      cases h
      exact ⟨rfl, ⟨⟨rfl, rfl, rfl⟩, rfl⟩, fun _ h => h, by simp [hgen, hstate]⟩
    · rename_i hstate
      cases h
      exact ⟨rfl, ⟨⟨rfl, rfl, rfl⟩, rfl⟩, fun _ h => h, by simp [hgen, hstate]⟩
    · obtain ⟨frame, _, h⟩ := Option.bind_eq_some_iff.mp h
      obtain ⟨vm₁, h₁, h⟩ := Option.map_eq_some_iff.mp h
      obtain ⟨st, ar, e, n, -, rfl⟩ := stored_setSlots h₁
      cases h
      refine ⟨rfl, ⟨⟨rfl, rfl, rfl⟩, rfl⟩, fun hle hg => hg.set g (fun _ => ?_) rfl,
        fun _ => rfl⟩
      simp only [List.length_append, List.length_reverse, List.length_take]
      omega
  · cases h

theorem startGenerator_spec {ci : CallInfo} {rest : List CallInfo} {func : SQFunctionProto}
    {target : ℤ} {ok : Bool} (hcs : vm.callsstack = ci :: rest) (htraps : ci.etraps = 0)
    (h : vm.startGenerator func target = some (vm', ok)) :
    ok = true ∧ vm'.snapshot = vm.snapshot.leave ci rest ∧ Stays vm vm' ∧
      (vm.GeneratorsOk → vm'.GeneratorsOk) := by
  simp only [startGenerator] at h
  obtain ⟨vm₁, h₁, h⟩ := Option.bind_eq_some_iff.mp h
  obtain ⟨⟨vm₂, ok₂⟩, h₂, h⟩ := Option.bind_eq_some_iff.mp h
  have hvm₁ : vm₁ = { vm with generators :=
      vm.generators ++ [{ state := .running, stack := [], ci := ci, etraps := [] }] } := by
    have hhead : vm.callsstack.head? = some ci := by rw [hcs]; rfl
    unfold createGenerator at h₁
    rw [hhead] at h₁
    exact (Option.some.inj h₁).symm
  have hcs₁ : vm₁.callsstack = ci :: rest := by rw [hvm₁]; exact hcs
  have hgens₁ : vm.GeneratorsOk → vm₁.GeneratorsOk := by
    intro hg gen hmem hsusp
    rw [hvm₁, List.mem_append, List.mem_singleton] at hmem
    rcases hmem with hmem | rfl
    · exact hg gen hmem hsusp
    · cases hsusp
  obtain ⟨hs₂, hk₂, hg₂, hok₂⟩ := yield_spec hcs₁ h₂
  obtain rfl : ok₂ = true := hok₂ (by simp [hvm₁])
  obtain ⟨⟨vm₃, b, res⟩, h₃, h⟩ := Option.bind_eq_some_iff.mp h
  obtain ⟨vm₄, h₄, h⟩ := Option.map_eq_some_iff.mp h
  cases h
  have hs₂' : vm₂.snapshot = vm.snapshot := by
    rw [hs₂, hvm₁]
    simp [htraps, snapshot]
  have hcs₂ : vm₂.callsstack = ci :: rest := (congrArg Snapshot.callsstack hs₂').trans hcs
  obtain ⟨-, hs₃, hg₃, hk₃⟩ := Return_spec hcs₂ h₃
  have hst := stored_setSlot h₄
  have hk₁ : Stays vm vm₁ := by rw [hvm₁]; exact ⟨⟨rfl, rfl, rfl⟩, rfl⟩
  refine ⟨rfl, ?_, ((hk₁.trans hk₂).trans hk₃).trans hst.stays, fun hg => ?_⟩
  · rw [hst.snapshot, hs₃, hs₂']
  · exact (((hg₂ (by omega) (hgens₁ hg)).of_eq hg₃).of_eq hst.generators)

/-- `StartCall` takes a call with `nargs` arguments, `this` included. -/
def accepts (func : SQFunctionProto) (nargs : ℕ) : Bool :=
  if func.varparams then func.nparameters - 1 ≤ nargs
  else nargs = func.nparameters ∨ (func.ndefaultparams ≠ 0 ∧ nargs < func.nparameters ∧
    func.nparameters - nargs ≤ func.ndefaultparams)

theorem placeArgs_accepts {closure : SQClosure} {nargs : ℕ} {stackbase : ℤ} {ok : Bool}
    (h : vm.placeArgs closure nargs stackbase = some (vm', ok)) :
    ok = accepts closure.function nargs := by
  simp only [placeArgs] at h
  simp only [accepts]
  split_ifs at h ⊢
  · cases h
    simp; omega
  · obtain ⟨r, h₁, h₂⟩ := Option.bind_eq_some_iff.mp h
    obtain ⟨vm₂, h₃, h₄⟩ := Option.map_eq_some_iff.mp h₂
    cases h₄
    simp; omega
  · obtain ⟨vm₁, h₁, h₂⟩ := Option.map_eq_some_iff.mp h
    cases h₂
    simp; omega
  · cases h
    simp; omega
  · cases h
    simp; omega

/-- What `StartCall` may leave behind. -/
inductive Started (vm vm' : SQVM) (func : SQFunctionProto) (nargs : ℕ) (stackbase : ℤ) :
    Bool → Prop
  /-- the arguments do not fit -/
  | refused : vm'.snapshot = vm.snapshot → Stays vm vm' → accepts func nargs = false →
      Started vm vm' func nargs stackbase false
  /-- `EnterFrame` has failed with the frame in place -/
  | leaked (f : CallInfo) : Entered vm vm' f stackbase (stackbase + func.stacksize) →
      f.root = false → f.etraps = 0 → accepts func nargs = true →
      ¬ vm.HasRoom (stackbase + func.stacksize) → Started vm vm' func nargs stackbase false
  | entered (f : CallInfo) : Entered vm vm' f stackbase (stackbase + func.stacksize) →
      f.root = false → f.etraps = 0 → func.bgenerator = false →
      vm.HasRoom (stackbase + func.stacksize) → Started vm vm' func nargs stackbase true
  /-- a generator has been made -/
  | created : vm'.snapshot = vm.snapshot → Kept vm vm' → vm'.block = vm.nextBlock →
      func.bgenerator = true → accepts func nargs = true →
      vm.HasRoom (stackbase + func.stacksize) → Started vm vm' func nargs stackbase true

/-- Entering a frame and leaving it again changes nothing. -/
theorem Entered.leave {f : CallInfo} {newbase newtop : ℤ}
    (he : Entered vm vm' f newbase newtop) :
    vm'.snapshot.leave f vm.callsstack = vm.snapshot := by
  rw [he.snapshot]
  have hbase : f.prevstkbase = newbase - vm.stackbase := he.remembers.prevstkbase
  have htop : f.prevtop = vm.top - vm.stackbase := he.remembers.prevtop
  simp only [Snapshot.leave, Snapshot.enter, hbase, htop, sub_sub_cancel, add_sub_cancel]
  rfl

theorem enterCall_spec {r : ℕ} {closure : SQClosure} {target stackbase : ℤ} {ok : Bool}
    (h : vm.enterCall r closure target stackbase false = (vm', ok)) :
    ∃ f, Entered vm vm' f stackbase (stackbase + closure.function.stacksize) ∧
      f.root = false ∧ f.etraps = 0 ∧ vm'.generators = vm.generators ∧
      (ok = true ↔ vm.HasRoom (stackbase + closure.function.stacksize)) := by
  simp only [enterCall] at h
  split at h
  · rename_i vm₁ heq
    cases h
    obtain ⟨he, hg, hroom⟩ := enterFrame_spec heq
    exact ⟨_, he, rfl, rfl, hg, hroom⟩
  · rename_i vm₁ heq
    cases h
    obtain ⟨he, hg, hroom⟩ := enterFrame_spec heq
    exact ⟨_, he.setCi _ rfl rfl, rfl, rfl, hg, hroom⟩

theorem startCall_spec {r : ℕ} {closure : SQClosure} {target stackbase : ℤ} {args : ℕ}
    {ok : Bool} (h : vm.startCall r closure target args stackbase false = some (vm', ok)) :
    Started vm vm' closure.function args stackbase ok ∧ (vm.GeneratorsOk → vm'.GeneratorsOk) := by
  simp only [startCall] at h
  obtain ⟨⟨vm₁, ok₁⟩, h₁, h⟩ := Option.bind_eq_some_iff.mp h
  have hst₁ := stored_placeArgs h₁
  have hacc := placeArgs_accepts h₁
  cases ok₁ with
  | false =>
    cases h
    exact ⟨.refused hst₁.snapshot hst₁.stays hacc.symm, fun hg => hg.of_eq hst₁.generators⟩
  | true =>
    obtain ⟨vm₂, h₂, h⟩ := Option.bind_eq_some_iff.mp h
    have hst := hst₁.trans (stored_placeEnv h₂)
    split at h
    · rename_i vm₃ heq
      cases h
      obtain ⟨f, he, hroot, htraps, hg, hr⟩ := enterCall_spec heq
      rw [hst.hasRoom] at hr
      exact ⟨.leaked f (he.after hst) hroot htraps hacc.symm (by simpa using hr),
        fun hg' => (hg'.of_eq hst.generators).of_eq hg⟩
    · rename_i vm₃ heq
      obtain ⟨f, he, hroot, htraps, hg, hr⟩ := enterCall_spec heq
      rw [hst.hasRoom] at hr
      have hg₃ : vm.GeneratorsOk → vm₃.GeneratorsOk :=
        fun hg' => (hg'.of_eq hst.generators).of_eq hg
      split_ifs at h with hgen
      · have he' := he.after hst
        have hcs₃ : vm₃.callsstack = f :: vm.callsstack :=
          congrArg Snapshot.callsstack he'.snapshot
        obtain ⟨rfl, hs, hk, hgk⟩ := startGenerator_spec hcs₃ htraps h
        exact ⟨.created (hs.trans he'.leave) (he'.kept.trans hk.toKept)
          (hk.block.trans he'.block) hgen hacc.symm (hr.mp rfl), hgk ∘ hg₃⟩
      · cases h
        exact ⟨.entered f (he.after hst) hroot htraps (Bool.eq_false_iff.mpr hgen) (hr.mp rfl),
          hg₃⟩

/-- The frame after a tail call: the same but for the closure, the target and the number of
calls. -/
def SameFrame (f f' : CallInfo) : Prop :=
  f'.root = f.root ∧ f'.etraps = f.etraps ∧ f'.prevstkbase = f.prevstkbase ∧
    f'.prevtop = f.prevtop ∧ f'.generator = f.generator

theorem startCall_tail {ci : CallInfo} {rest : List CallInfo} {r : ℕ} {closure : SQClosure}
    {target : ℤ} {args : ℕ} {ok : Bool} (hcs : vm.callsstack = ci :: rest)
    (hgen : closure.function.bgenerator = false)
    (h : vm.startCall r closure target args vm.stackbase true = some (vm', ok)) :
    (∃ ci' top, SameFrame ci ci' ∧
      vm'.snapshot = { vm.snapshot with callsstack := ci' :: rest, top := top }) ∧
      Kept vm vm' ∧ vm'.generators = vm.generators := by
  simp only [startCall, enterCall, hgen, Bool.false_eq_true, if_false] at h
  obtain ⟨⟨vm₁, ok₁⟩, h₁, h⟩ := Option.bind_eq_some_iff.mp h
  have hst₁ := stored_placeArgs h₁
  cases ok₁ with
  | false =>
    cases h
    refine ⟨⟨ci, vm.top, ⟨rfl, rfl, rfl, rfl, rfl⟩, ?_⟩, hst₁.stays.toKept, hst₁.generators⟩
    rw [hst₁.snapshot, ← hcs]
    rfl
  | true =>
    obtain ⟨vm₂, h₂, h⟩ := Option.bind_eq_some_iff.mp h
    have hst := hst₁.trans (stored_placeEnv h₂)
    have hcs₂ := hst.callsstack.trans hcs
    have hsnap₂ := hst.snapshot
    cases heq : vm₂.enterFrame vm.stackbase (vm.stackbase + closure.function.stacksize) true with
    | mk vm₃ ok₃ =>
      obtain ⟨hs, hg, hk⟩ := enterFrame_tail heq
      have hsnap : vm₃.snapshot = { vm.snapshot with
          callsstack := { ci with ncalls := ci.ncalls + 1 } :: rest
          top := vm.stackbase + closure.function.stacksize } := by
        rw [hs, hcs₂, hsnap₂]
        rfl
      rw [heq] at h
      cases ok₃ with
      | false =>
        cases h
        exact ⟨⟨{ ci with ncalls := ci.ncalls + 1 }, _, ⟨rfl, rfl, rfl, rfl, rfl⟩, hsnap⟩,
          hst.stays.toKept.trans hk, hg.trans hst.generators⟩
      | true =>
        cases h
        have hcs₃ : vm₃.callsstack = { ci with ncalls := ci.ncalls + 1 } :: rest :=
          congrArg Snapshot.callsstack hsnap
        refine ⟨⟨{ ci with ncalls := ci.ncalls + 1, closure := .closure r, target := target },
          vm.stackbase + closure.function.stacksize, ⟨rfl, rfl, rfl, rfl, rfl⟩, ?_⟩,
          (hst.stays.toKept.trans hk).trans ⟨rfl, rfl, rfl⟩, hg.trans hst.generators⟩
        have hci : ∀ g, (vm₃.setCi g).snapshot =
            { vm₃.snapshot with callsstack := vm₃.callsstack.modifyHead g } := fun _ => rfl
        rw [hci, hcs₃, hsnap]
        rfl

/-- What `Resume` may leave behind. -/
inductive Resumed (vm vm' : SQVM) (g : ℕ) : Bool → Prop
  | refused : vm'.snapshot = vm.snapshot → Kept vm vm' →
      (vm.generators[g]?).map SQGenerator.state ≠ some .suspended → Resumed vm vm' g false
  | leaked (f : CallInfo) (gen : SQGenerator) :
      vm.generators[g]? = some gen → gen.state = .suspended →
      Entered vm vm' f vm.top (vm.top + gen.stack.length) → f.root = false →
      f.etraps = 0 → ¬ vm.HasRoom (vm.top + gen.stack.length) → Resumed vm vm' g false
  | entered (f : CallInfo) (gen : SQGenerator) (vm₁ : SQVM) :
      vm.generators[g]? = some gen → gen.state = .suspended →
      vm.HasRoom (vm.top + gen.stack.length) →
      Entered vm vm₁ f vm.top (vm.top + gen.stack.length) → f.root = gen.ci.root → f.etraps = gen.ci.etraps →
      vm'.snapshot = { vm₁.snapshot with
        etraps := (gen.etraps.take gen.ci.etraps).reverse ++ vm₁.etraps } →
      Kept vm₁ vm' → Resumed vm vm' g true

theorem resume_spec {g : ℕ} {dest : ℤ} {ok : Bool}
    (h : vm.resume g dest = some (vm', ok)) :
    Resumed vm vm' g ok ∧ (vm.GeneratorsOk → vm'.GeneratorsOk) := by
  unfold resume at h
  split at h
  · cases h
  · rename_i gen hgen
    split at h
    · rename_i hstate
      cases h
      exact ⟨.refused rfl ⟨rfl, rfl, rfl⟩ (by simp [hgen, hstate]), id⟩
    · rename_i hstate
      cases h
      exact ⟨.refused rfl ⟨rfl, rfl, rfl⟩ (by simp [hgen, hstate]), id⟩
    · rename_i hstate
      simp only at h
      split at h
      · rename_i vm₁ heq
        cases h
        obtain ⟨he, hg, hr⟩ := enterFrame_spec heq
        exact ⟨.leaked _ gen hgen hstate he rfl rfl (by simpa using hr), fun h => h.of_eq hg⟩
      · rename_i vm₁ heq
        obtain ⟨he, hg, hr⟩ := enterFrame_spec heq
        obtain ⟨vm₂, h₂, h⟩ := Option.map_eq_some_iff.mp h
        cases h
        have hst := stored_setSlots h₂
        refine ⟨.entered _ gen _ hgen hstate (hr.mp rfl) (he.setCi (fun ci => { ci with
          generator := some g, target := dest - vm.stackbase, closure := gen.ci.closure
          ncalls := gen.ci.ncalls, etraps := gen.ci.etraps, root := gen.ci.root }) rfl rfl)
          rfl rfl hst.snapshot ⟨hst.stays.suspended, hst.stays.suspendedRoot,
            hst.stays.nmetamethodscall⟩, fun h => ?_⟩
        refine ((h.of_eq hg).set g (fun hsusp => ?_) rfl : SQVM.GeneratorsOk _).of_eq
          hst.generators
        cases hsusp

/-- What `CallNative` may leave behind when the native function has not run. -/
inductive NativeStarted (vm vm' : SQVM) (newbase newtop : ℤ) : Bool → Prop
  | refused : vm'.snapshot = vm.snapshot → Kept vm vm' → NativeStarted vm vm' newbase newtop false
  | leaked (f : CallInfo) : Entered vm vm' f newbase newtop → f.root = false → f.etraps = 0 →
      NativeStarted vm vm' newbase newtop false
  | entered (f : CallInfo) (vm₁ : SQVM) : Entered vm vm₁ f newbase newtop → f.root = false →
      f.etraps = 0 → vm'.snapshot = { vm₁.snapshot with nnativecalls := vm.nnativecalls + 1 } →
      Kept vm₁ vm' → NativeStarted vm vm' newbase newtop true

/-- `CallNative` passes its checks and the frame it then enters fits. -/
def NativeFits (vm : SQVM) (n : SQNativeClosure) (nargs : ℕ) (newbase : ℤ) : Prop :=
  vm.nnativecalls + 1 ≤ MAX_NATIVE_CALLS → nparamsOk n nargs = true →
    (∀ args, vm.slots newbase (min nargs n.typecheck.length) = some args →
      typesOk args n.typecheck = true) →
    vm.HasRoom (newbase + nargs + n.outervalues.length)

theorem enterNative_spec {r : ℕ} {n : SQNativeClosure} {nargs : ℕ} {newbase : ℤ} {ok : Bool}
    (h : vm.enterNative r n nargs newbase = some (vm', ok)) :
    NativeStarted vm vm' newbase (newbase + nargs + n.outervalues.length) ok ∧
      vm'.generators = vm.generators ∧
      (ok = false → vm.NativeFits n nargs newbase → vm'.snapshot = vm.snapshot) := by
  simp only [enterNative] at h
  split_ifs at h with hnn hparams
  · cases h
    exact ⟨.refused rfl ⟨rfl, rfl, rfl⟩, rfl, fun _ _ => rfl⟩
  · cases h
    exact ⟨.refused rfl ⟨rfl, rfl, rfl⟩, rfl, fun _ _ => rfl⟩
  · obtain ⟨args, hargs, h⟩ := Option.bind_eq_some_iff.mp h
    split_ifs at h with htypes
    · cases h
      exact ⟨.refused rfl ⟨rfl, rfl, rfl⟩, rfl, fun _ _ => rfl⟩
    · split at h
      · rename_i vm₁ heq
        cases h
        obtain ⟨he, hg, hr⟩ := enterFrame_spec heq
        refine ⟨.leaked _ he rfl rfl, hg, fun _ hfits => absurd (hr.mpr ?_) nofun⟩
        refine hfits (by omega) (by simpa using hparams) fun args' hargs' => ?_
        rw [hargs] at hargs'
        cases hargs'
        simpa using htypes
      · rename_i vm₁ heq
        obtain ⟨he, hg, -⟩ := enterFrame_spec heq
        obtain ⟨vm₂, h₂, h⟩ := Option.bind_eq_some_iff.mp h
        obtain ⟨vm₃, h₃, h⟩ := Option.map_eq_some_iff.mp h
        cases h
        have hst := (stored_setSlots h₂).trans (stored_placeEnv h₃)
        have he' := he.setCi (fun ci => { ci with closure := .nativeclosure r }) rfl rfl
        have hnn : vm₃.nnativecalls = vm.nnativecalls :=
          congrArg Snapshot.nnativecalls (hst.snapshot.trans he'.snapshot)
        refine ⟨.entered _ _ he' rfl rfl ?_ (hst.stays.toKept.trans ⟨rfl, rfl, rfl⟩),
          hst.generators.trans hg, nofun⟩
        rw [← hst.snapshot, ← hnn]
        rfl

end SQVM
end Squirt
