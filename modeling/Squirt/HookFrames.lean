import Squirt.DebugHook
import Squirt.VmNestingRuns

/-!
# The calls of the debug hook and the frames

Each function that enters or leaves a frame reports it. One lemma a function says how the
call stack and the generators come out of it, together with the calls of the hook.
-/

namespace Squirt
namespace SQVM

variable {vm vm' : SQVM}

theorem enterFrame_callsstack {newbase newtop : ℤ} {ok : Bool}
    (h : vm.enterFrame newbase newtop false = (vm', ok)) :
    vm'.callsstack = vm.newCallInfo newbase :: vm.callsstack :=
  congrArg Snapshot.callsstack (enterFrame_spec h).1.snapshot

/-- The frame of a script function that has been called. -/
structure CalledFrame (f : CallInfo) (r : ℕ) : Prop where
  closure : f.closure = .closure r
  ncalls : f.ncalls = 1

private theorem enterCall_frame {r : ℕ} {closure : SQClosure} {target stackbase : ℤ} {ok : Bool}
    (h : vm.enterCall r closure target stackbase false = (vm', ok)) (hok : ok = true) :
    vm'.generators = vm.generators ∧
      ∃ f, vm'.callsstack = f :: vm.callsstack ∧ CalledFrame f r := by
  simp only [enterCall] at h
  split at h
  · cases h
    cases hok
  · rename_i vm₁ heq
    cases h
    refine ⟨(enterFrame_spec heq).2.1, _, setCi_callsstack (enterFrame_callsstack heq) _, rfl, rfl⟩

theorem yield_frames {ci : CallInfo} {rest : List CallInfo} {g target : ℕ} {ok : Bool}
    (hcs : vm.callsstack = ci :: rest) (h : vm.yield g target = some (vm', ok)) :
    vm'.callsstack = vm.callsstack ∧ (vm'.generators = vm.generators ∨
      ∃ gen, vm'.generators = vm.generators.set g gen ∧ gen.ci = { ci with generator := none }) := by
  simp only [yield, hcs] at h
  split at h
  · rename_i gen _ _ hci
    cases hci
    split at h
    · cases h
      exact ⟨rfl, .inl rfl⟩
    · cases h
      exact ⟨rfl, .inl rfl⟩
    · obtain ⟨frame, _, h⟩ := Option.bind_eq_some_iff.mp h
      obtain ⟨vm₁, h₁, h⟩ := Option.map_eq_some_iff.mp h
      obtain ⟨st, ar, e, n, -, rfl⟩ := stored_setSlots h₁
      cases h
      exact ⟨rfl, .inr ⟨_, rfl, rfl⟩⟩
  · cases h

theorem returnHooks_cons {ci : CallInfo} {rest : List CallInfo} (h : vm.callsstack = ci :: rest) :
    vm.returnHooks = List.replicate ci.ncalls .r := by
  simp only [returnHooks, h]

/-- A generator is made: the frame reports that it is left. -/
theorem startGenerator_frames {ci : CallInfo} {rest : List CallInfo} {func : SQFunctionProto}
    {target : ℤ} {ok : Bool} (hcs : vm.callsstack = ci :: rest) (htraps : ci.etraps = 0)
    (h : vm.startGenerator func target = some (vm', ok)) :
    ok = true ∧ vm'.callsstack = rest ∧
      vm.startGeneratorHooks func = List.replicate ci.ncalls .r ∧
      ∃ gen, vm'.generators = vm.generators ++ [gen] ∧ gen.ci.closure = ci.closure ∧
        gen.ci.ncalls = ci.ncalls := by
  obtain ⟨hok, -⟩ := startGenerator_spec hcs htraps h
  simp only [startGenerator] at h
  obtain ⟨vm₁, h₁, h⟩ := Option.bind_eq_some_iff.mp h
  obtain ⟨⟨vm₂, ok₂⟩, h₂, h⟩ := Option.bind_eq_some_iff.mp h
  have hvm₁ : vm₁ = { vm with generators :=
      vm.generators ++ [{ state := .running, stack := [], ci := ci, etraps := [] }] } := by
    have hhead : vm.callsstack.head? = some ci := by rw [hcs]; rfl
    unfold createGenerator at h₁
    rw [hhead] at h₁
    exact (Option.some.inj h₁).symm
  have hcs₁ : vm₁.callsstack = ci :: rest := by rw [hvm₁]; exact hcs
  obtain ⟨-, -, -, hok₂⟩ := yield_spec hcs₁ h₂
  obtain rfl : ok₂ = true := hok₂ (by simp [hvm₁])
  obtain ⟨hcs₂, hgen₂⟩ := yield_frames hcs₁ h₂
  obtain ⟨⟨vm₃, b, res⟩, h₃, h⟩ := Option.bind_eq_some_iff.mp h
  obtain ⟨vm₄, h₄, h⟩ := Option.map_eq_some_iff.mp h
  cases h
  obtain ⟨-, hs₃, hg₃, -⟩ := Return_spec (hcs₂.trans hcs₁) h₃
  have hst := stored_setSlot h₄
  refine ⟨rfl, hst.callsstack.trans (congrArg Snapshot.callsstack hs₃), ?_, ?_⟩
  · rw [startGeneratorHooks, h₁, Option.bind_some, h₂]
    exact returnHooks_cons (hcs₂.trans hcs₁)
  · have hgens : vm'.generators = vm₂.generators := hst.generators.trans hg₃
    rcases hgen₂ with hgen₂ | ⟨gen, hgen₂, hci⟩
    · rw [hgens, hgen₂, hvm₁]
      exact ⟨_, rfl, rfl, rfl⟩
    · rw [hgens, hgen₂, hvm₁]
      refine ⟨gen, by simp, by rw [hci], by rw [hci]⟩

/-- What `StartCall` may leave behind when the frame it enters fits. -/
inductive CallStarted (vm vm' : SQVM) (r : ℕ) (closure : SQClosure) : Bool → List HookType → Prop
  | refused : vm'.callsstack = vm.callsstack → vm'.generators = vm.generators →
      CallStarted vm vm' r closure false []
  | entered (f : CallInfo) : CalledFrame f r → vm'.callsstack = f :: vm.callsstack →
      vm'.generators = vm.generators → CallStarted vm vm' r closure true [.c]
  /-- a generator has been made -/
  | created (gen : SQGenerator) : CalledFrame gen.ci r → vm'.callsstack = vm.callsstack →
      vm'.generators = vm.generators ++ [gen] → vm'.block = vm.nextBlock →
      closure.function.bgenerator = true → CallStarted vm vm' r closure true [.c, .r]

theorem startCall_frames {r : ℕ} {closure : SQClosure} {target stackbase : ℤ} {args : ℕ}
    {ok : Bool} (h : vm.startCall r closure target args stackbase false = some (vm', ok))
    (hroom : accepts closure.function args = true →
      vm.HasRoom (stackbase + closure.function.stacksize)) :
    CallStarted vm vm' r closure ok
      (vm.startCallHooks r closure target args stackbase false) := by
  have hspec := (startCall_spec h).1
  simp only [startCall] at h
  obtain ⟨⟨vm₁, ok₁⟩, h₁, h⟩ := Option.bind_eq_some_iff.mp h
  have hst₁ := stored_placeArgs h₁
  have hacc := placeArgs_accepts h₁
  cases ok₁ with
  | false =>
    cases h
    rw [startCallHooks, h₁]
    exact .refused hst₁.callsstack hst₁.generators
  | true =>
    obtain ⟨vm₂, h₂, h⟩ := Option.bind_eq_some_iff.mp h
    have hst := hst₁.trans (stored_placeEnv h₂)
    cases heq : vm₂.enterCall r closure target stackbase false with
    | mk vm₃ ok₃ =>
      obtain ⟨_, -, -, htraps, -, hfits⟩ := enterCall_spec heq
      obtain rfl : ok₃ = true := hfits.mpr (hst.hasRoom.mpr (hroom hacc.symm))
      obtain ⟨hgen₃, f, hcs₃, hf⟩ := enterCall_frame heq rfl
      rw [hst.callsstack] at hcs₃
      rw [hst.generators] at hgen₃
      simp only [heq] at h
      simp only [startCallHooks, h₁, h₂, Option.map_some, heq]
      split_ifs at h ⊢ with hgen
      · have htraps₃ : f.etraps = 0 := by
          obtain ⟨f', hf', _, htr, _⟩ := enterCall_spec heq
          have : f' :: vm₂.callsstack = f :: vm.callsstack :=
            (congrArg Snapshot.callsstack hf'.snapshot).symm.trans hcs₃
          exact (List.cons.inj this).1 ▸ htr
        obtain ⟨rfl, hcs₄, hhooks, gen, hgens, hclo, hn⟩ := startGenerator_frames hcs₃ htraps₃ h
        rw [hhooks, hf.ncalls]
        refine .created gen ⟨hclo.trans hf.closure, hn.trans hf.ncalls⟩ hcs₄
          (hgen₃ ▸ hgens) ?_ hgen
        cases hspec with
        | entered f' _ _ _ hgen' => rw [hgen] at hgen'; cases hgen'
        | created _ _ hblock => exact hblock
      · cases h
        exact .entered f hf hcs₃ hgen₃

/-- A tail call reports the function that takes the frame over. -/
theorem startCall_tail_frames {ci : CallInfo} {rest : List CallInfo} {r : ℕ}
    {closure : SQClosure} {target : ℤ} {args : ℕ} {ok : Bool} (hcs : vm.callsstack = ci :: rest)
    (hgen : closure.function.bgenerator = false)
    (h : vm.startCall r closure target args vm.stackbase true = some (vm', ok))
    (hroom : accepts closure.function args = true →
      vm.HasRoom (vm.stackbase + closure.function.stacksize)) :
    (vm'.callsstack = ci :: rest ∧
      vm.startCallHooks r closure target args vm.stackbase true = []) ∨
    ((∃ ci', vm'.callsstack = ci' :: rest ∧ ci'.closure = .closure r ∧
      ci'.ncalls = ci.ncalls + 1) ∧
      vm.startCallHooks r closure target args vm.stackbase true = [.c]) := by
  simp only [startCall] at h
  obtain ⟨⟨vm₁, ok₁⟩, h₁, h⟩ := Option.bind_eq_some_iff.mp h
  have hst₁ := stored_placeArgs h₁
  have hacc := placeArgs_accepts h₁
  cases ok₁ with
  | false =>
    cases h
    left
    rw [startCallHooks, h₁]
    exact ⟨hst₁.callsstack.trans hcs, rfl⟩
  | true =>
    right
    obtain ⟨vm₂, h₂, h⟩ := Option.bind_eq_some_iff.mp h
    have hst := hst₁.trans (stored_placeEnv h₂)
    simp only [startCallHooks, h₁, h₂, Option.map_some]
    cases heq : vm₂.enterFrame vm.stackbase (vm.stackbase + closure.function.stacksize) true with
    | mk vm₃ ok₃ =>
      have hfits : ok₃ = true := by
        have hroom₂ := hst.hasRoom.mpr (hroom hacc.symm)
        simp only [enterFrame, pushFrame, if_true] at heq
        split_ifs at heq with hsize hmeta
        · rcases hroom₂ with hroom₂ | hroom₂
          · exact absurd hsize (not_lt.mpr hroom₂)
          · exact (hmeta hroom₂).elim
        · cases heq
          rfl
        · cases heq
          rfl
      subst hfits
      obtain ⟨hs, -⟩ := enterFrame_tail heq
      have hcs₃ : vm₃.callsstack = { ci with ncalls := ci.ncalls + 1 } :: rest := by
        have := congrArg Snapshot.callsstack hs
        rw [hst.callsstack.trans hcs] at this
        exact this
      have hcall : vm₂.enterCall r closure target vm.stackbase true =
          (vm₃.setCi fun ci => { ci with closure := .closure r, target := target }, true) := by
        simp only [enterCall, heq]
      simp only [hcall, hgen, Bool.false_eq_true, if_false] at h ⊢
      cases h
      exact ⟨⟨_, setCi_callsstack hcs₃ _, rfl, rfl⟩, trivial⟩

/-- What `Resume` may leave behind when the frame fits. -/
inductive CallResumed (vm vm' : SQVM) (g : ℕ) : Bool → List HookType → Prop
  | refused : vm'.callsstack = vm.callsstack → vm'.generators = vm.generators →
      CallResumed vm vm' g false []
  | entered (f : CallInfo) (gen gen' : SQGenerator) : vm.generators[g]? = some gen →
      gen.state = .suspended → f.closure = gen.ci.closure → f.ncalls = gen.ci.ncalls →
      vm'.callsstack = f :: vm.callsstack → vm'.generators = vm.generators.set g gen' →
      gen'.state = .running → CallResumed vm vm' g true [.c]

theorem resume_frames {g : ℕ} {dest : ℤ} {ok : Bool} (h : vm.resume g dest = some (vm', ok))
    (hroom : ∀ gen, vm.generators[g]? = some gen → gen.state = .suspended →
      vm.HasRoom (vm.top + gen.stack.length)) :
    CallResumed vm vm' g ok (vm.resumeHooks g dest) := by
  have hhooks : vm.resumeHooks g dest = if ok then [.c] else [] := by
    rw [resumeHooks, h]
    cases ok with
    | true => rfl
    | false => rfl
  rw [hhooks]
  unfold resume at h
  split at h
  · cases h
  · rename_i gen hgen
    split at h
    · cases h
      exact .refused rfl rfl
    · cases h
      exact .refused rfl rfl
    · rename_i hstate
      simp only at h
      split at h
      · rename_i vm₁ heq
        obtain ⟨-, -, hfits⟩ := enterFrame_spec heq
        cases hfits.mpr (hroom gen hgen hstate)
      · rename_i vm₁ heq
        obtain ⟨-, hg₁, -⟩ := enterFrame_spec heq
        obtain ⟨vm₂, h₂, h⟩ := Option.map_eq_some_iff.mp h
        cases h
        have hst := stored_setSlots h₂
        have hcs := setCi_callsstack (enterFrame_callsstack heq) fun ci => { ci with
          generator := some g, target := dest - vm.stackbase, closure := gen.ci.closure
          ncalls := gen.ci.ncalls, etraps := gen.ci.etraps, root := gen.ci.root }
        refine .entered { vm.newCallInfo vm.top with
          generator := some g, target := dest - vm.stackbase, closure := gen.ci.closure
          ncalls := gen.ci.ncalls, etraps := gen.ci.etraps, root := gen.ci.root } gen { gen with
          state := .running
          stack := gen.stack.take 1 ++ List.replicate (gen.stack.length - 1) SQObject.null
          etraps := gen.etraps.drop gen.ci.etraps } hgen hstate rfl rfl
          (hst.callsstack.trans hcs) (hst.generators.trans ?_) rfl
        rw [← hg₁]
        rfl

/-- What `CallNative` may leave behind when the frame it enters fits. -/
theorem enterNative_frames {r : ℕ} {n : SQNativeClosure} {nargs : ℕ} {newbase : ℤ} {ok : Bool}
    (h : vm.enterNative r n nargs newbase = some (vm', ok))
    (hfits : vm.NativeFits n nargs newbase) :
    if ok then ∃ f, vm'.callsstack = f :: vm.callsstack ∧ f.closure = .nativeclosure r
    else vm'.callsstack = vm.callsstack := by
  cases ok with
  | false => exact congrArg Snapshot.callsstack ((enterNative_spec h).2.2 rfl hfits)
  | true =>
    simp only [enterNative] at h
    split_ifs at h with hnn hparams
    · cases h
    · cases h
    obtain ⟨args, hargs, h⟩ := Option.bind_eq_some_iff.mp h
    split_ifs at h with htypes
    · cases h
    split at h
    · cases h
    · rename_i vm₁ heq
      obtain ⟨vm₂, h₂, h⟩ := Option.bind_eq_some_iff.mp h
      obtain ⟨vm₃, h₃, h⟩ := Option.map_eq_some_iff.mp h
      cases h
      have hst := (stored_setSlots h₂).trans (stored_placeEnv h₃)
      exact ⟨_, hst.callsstack.trans (setCi_callsstack (enterFrame_callsstack heq) _), rfl⟩

theorem Started.suspended {func : SQFunctionProto} {nargs : ℕ} {stackbase : ℤ} {ok : Bool}
    (h : Started vm vm' func nargs stackbase ok) : vm'.suspended = vm.suspended := by
  cases h with
  | refused _ hk => exact hk.suspended
  | leaked _ he => exact he.kept.suspended
  | entered _ he => exact he.kept.suspended
  | created _ hk => exact hk.suspended

theorem Resumed.suspended {g : ℕ} {ok : Bool} (h : Resumed vm vm' g ok) :
    vm'.suspended = vm.suspended := by
  cases h with
  | refused _ hk => exact hk.suspended
  | leaked _ _ _ _ he => exact he.kept.suspended
  | entered _ _ _ _ _ _ he _ _ _ hk => exact hk.suspended.trans he.kept.suspended

theorem NativeStarted.suspended {newbase newtop : ℤ} {ok : Bool}
    (h : NativeStarted vm vm' newbase newtop ok) : vm'.suspended = vm.suspended := by
  cases h with
  | refused _ hk => exact hk.suspended
  | leaked _ he => exact he.kept.suspended
  | entered _ _ he _ _ _ hk => exact hk.suspended.trans he.kept.suspended

end SQVM
end Squirt
