import Squirt.HookCounts

/-!
# Every step reports the script functions it enters and leaves

One lemma for each call, each instruction and each way to return.
-/

namespace Squirt.Machine

open SQVM (HasRoom NativeFits accepts CalledFrame CallStarted CallResumed)

variable {c c' : Config} {a : Activation} {rest : List Activation} {vm vm' : SQVM}
  {ci : CallInfo} {own : List CallInfo}

section Calls

variable {closure : SQObject} {r nparams : ℕ} {stackbase : ℤ} {k : Cont}
  {inst : Option SQObject} {entry : Snapshot}

/-- C++ code makes a call in a state in which the frames belong to the invocations. -/
structure CallsFrom (c : Config) (vm : SQVM) : Prop where
  owned : Owned c.heap c.vm.suspended c.vm.callsstack c.active
  ok : FramesOk c
  callsstack : vm.callsstack = c.vm.callsstack
  suspended : vm.suspended = c.vm.suspended
  generators : vm.generators = c.vm.generators

theorem CallsFrom.store (h : CallsFrom c vm) (hst : SQVM.Stored vm vm') : CallsFrom c vm' where
  owned := h.owned
  ok := h.ok
  callsstack := hst.callsstack.trans h.callsstack
  suspended := hst.stays.suspended.trans h.suspended
  generators := hst.generators.trans h.generators

/-- The invocation that has been started owns its frames. -/
theorem CallsFrom.enter (h : CallsFrom c vm) {kind : Kind} {pc : Pc} {traps : ℤ}
    {calls : List HookType} (hentry : entry.callsstack = c.vm.callsstack)
    (hsusp : vm'.suspended = vm.suspended) (hgens : SavedCalls c.heap vm'.generators)
    (howns : Owns c.heap vm'.callsstack { kind, pc, traps, cont := k, inst, entry })
    (hbalance : scriptCalls vm'.callsstack + calls.count .r =
      scriptCalls c.vm.callsstack + calls.count .c) :
    Counts c (c.enter vm' kind pc traps k inst entry) calls := by
  have hsusp' := hsusp.trans h.suspended
  refine ⟨⟨.owned ⟨howns, ?_⟩, hgens, fun hs => h.ok.entry (hsusp'.symm.trans hs)⟩, hbalance,
    .called c.vm.callsstack ?_⟩
  · change Owned c.heap vm'.suspended entry.callsstack c.active
    rw [hentry, hsusp']
    exact h.owned
  · simp [Config.found, Config.enter, hentry]

/-- The call has returned at once with the frames as they were. -/
theorem CallsFrom.back (h : CallsFrom c vm) {kind : Kind} {pc : Pc} {traps : ℤ}
    {calls : List HookType} (hpc : pc = .failed ∨ ∃ ok res suspend, pc = .done ok res suspend)
    (hentry : entry.callsstack = c.vm.callsstack) (hcs : vm'.callsstack = vm.callsstack)
    (hsusp : vm'.suspended = vm.suspended) (hgens : SavedCalls c.heap vm'.generators)
    (hcalls : calls.count .r = calls.count .c) :
    Counts c (c.enter vm' kind pc traps k inst entry) calls := by
  have hcs' := hcs.trans h.callsstack
  refine h.enter hentry hsusp hgens (.none ?_ ?_ (hcs'.trans hentry.symm)) (by rw [hcs', hcalls])
  · rcases hpc with rfl | ⟨ok, res, suspend, rfl⟩
    · simp [Activation.entered]
    · simp [Activation.entered]
  · rcases hpc with rfl | ⟨ok, res, suspend, rfl⟩
    · simp
    · simp

theorem CallsFrom.execute (h : CallsFrom c vm) (hentry : entry.callsstack = c.vm.callsstack)
    (hr : ClosureStays c vm (.closure r) nparams stackbase)
    (hp : ClosureFits c vm (.closure r) nparams stackbase)
    (he : c.execute vm r nparams stackbase k inst entry = some c') :
    Counts c c' (c.executeHooks vm r nparams stackbase) := by
  have hsaved : ∀ gens, gens = vm.generators → SavedCalls c.heap gens := by
    rintro gens rfl
    rw [h.generators]
    exact h.ok.generators
  unfold Config.execute at he
  unfold Config.executeHooks
  split_ifs at he ⊢ with hnn
  · cases he
    exact h.back (.inr ⟨_, _, _, rfl⟩) hentry rfl rfl (hsaved _ rfl) rfl
  · obtain ⟨⟨vm₁, ok⟩, hstart, he⟩ := Option.bind_eq_some_iff.mp he
    have hsusp : vm₁.suspended = vm.suspended := (SQVM.startCall_spec hstart).1.suspended
    have hstarted := SQVM.startCall_frames hstart (hp (by omega))
    generalize SQVM.startCallHooks _ r (c.heap.closure r) (vm.top - nparams) nparams stackbase
      false = calls at hstarted ⊢
    cases hstarted with
    | refused hcs hgens =>
      cases he
      exact h.back (.inl rfl) hentry hcs hsusp (hsaved _ hgens) rfl
    | entered f hf hcs hgens =>
      have hcs₁ : vm₁.callsstack = f :: vm.callsstack := hcs
      have hne : vm₁.ciPtr ≠ vm.ciPtr := by
        rw [ciPtr_cons hcs₁]
        cases hcs : vm.callsstack with
        | nil => simp [ciPtr_nil hcs]
        | cons ci fs => simp [ciPtr_cons hcs]
      simp only [Bool.not_true, Bool.false_eq_true, if_false, if_neg hne, hcs₁,
        List.cons_ne_nil] at he
      cases he
      have hroot : (vm₁.setCi fun ci => { ci with root := true }).callsstack =
          { f with root := true } :: c.vm.callsstack :=
        (SQVM.setCi_callsstack hcs₁ _).trans (by rw [h.callsstack])
      have hframe : ScriptFrame c.heap { f with root := true } :=
        ⟨r, hf.closure, fun _ => hf.ncalls⟩
      refine h.enter hentry hsusp (hsaved _ hgens) (.script [{ f with root := true }] rfl
        (by simpa using hframe) (hroot.trans (by rw [← hentry]; rfl))) ?_
      change scriptCalls (vm₁.setCi _).callsstack + 0 = scriptCalls c.vm.callsstack + 1
      rw [hroot, scriptCalls_cons hframe.script, hf.ncalls]
      omega
    | created gen hgen hcs hgens hblock hfunc =>
      have hcs₁ : vm₁.callsstack = vm.callsstack := hcs
      -- the generator is made with the arguments accepted and the frame entered
      have heq : vm₁.ciPtr = vm.ciPtr := by
        cases hfs : vm.callsstack with
        | nil => rw [ciPtr_nil hfs, ciPtr_nil (hcs₁.trans hfs)]
        | cons ci fs =>
          cases (SQVM.startCall_spec hstart).1 with
          | entered f _ _ _ hnot => rw [hfunc] at hnot; cases hnot
          | created _ _ _ _ hacc hroom =>
            have hb := hr (by omega) hacc hroom hfunc (by simp [hfs])
            rw [ciPtr_cons hfs, ciPtr_cons (hcs₁.trans hfs), hblock, nextBlock_counted, hb]
      simp only [Bool.not_true, Bool.false_eq_true, if_false, if_pos heq] at he
      obtain ⟨res, _, rfl⟩ := Option.map_eq_some_iff.mp he
      have hgens' : SavedCalls c.heap vm₁.generators := by
        rw [hgens]
        exact (hsaved _ rfl).append fun _ => ⟨r, hgen, hfunc⟩
      exact h.back (.inr ⟨_, _, _, rfl⟩) hentry hcs hsusp hgens' rfl

/-- A native function has its frame, or the call is refused. -/
theorem CallsFrom.native (h : CallsFrom c vm) (k : Cont) (inst : Option SQObject)
    (hentry : entry.callsstack = c.vm.callsstack)
    (hp : vm.NativeFits (c.heap.nativeclosure r) nparams stackbase) {ok : Bool}
    (hs : vm.enterNative r (c.heap.nativeclosure r) nparams stackbase = some (vm', ok)) :
    if ok then Counts c (c.enter vm' .native .loop 0 k inst entry) []
    else vm'.callsstack = c.vm.callsstack ∧ vm'.generators = c.vm.generators ∧
      vm'.suspended = c.vm.suspended := by
  obtain ⟨hstarted, hgen, -⟩ := SQVM.enterNative_spec hs
  have hsusp : vm'.suspended = vm.suspended := hstarted.suspended
  have hframes := SQVM.enterNative_frames hs hp
  cases ok with
  | false =>
    exact ⟨Eq.trans hframes h.callsstack, hgen.trans h.generators, hsusp.trans h.suspended⟩
  | true =>
    obtain ⟨f, hcs, hclo⟩ := hframes
    have hf : f.script = false := by simp [CallInfo.script, hclo]
    rw [h.callsstack] at hcs
    refine h.enter hentry hsusp (hgen ▸ h.generators ▸ h.ok.generators)
      (.native f rfl rfl hf (hcs.trans (by rw [← hentry]))) ?_
    change scriptCalls vm'.callsstack + 0 = scriptCalls c.vm.callsstack + 0
    rw [hcs, scriptCalls_cons_native hf]

theorem CallsFrom.callNative (h : CallsFrom c vm) (hentry : entry.callsstack = c.vm.callsstack)
    (hp : ClosureFits c vm (.nativeclosure r) nparams stackbase)
    (he : c.callNative vm r nparams stackbase k inst entry = some c') : Counts c c' [] := by
  obtain ⟨⟨vm₁, ok⟩, hstart, rfl⟩ := Option.map_eq_some_iff.mp he
  have hnative := h.native k inst hentry hp hstart
  cases ok with
  | true => exact hnative
  | false =>
    obtain ⟨hcs, hgens, hsusp⟩ := hnative
    exact h.back (.inr ⟨_, _, _, rfl⟩) hentry (hcs.trans h.callsstack.symm)
      (hsusp.trans h.suspended.symm) (hgens ▸ h.ok.generators) rfl

theorem CallsFrom.callClosure (h : CallsFrom c vm) (hentry : entry.callsstack = c.vm.callsstack)
    (hr : ClosureStays c vm closure nparams stackbase)
    (hp : ClosureFits c vm closure nparams stackbase)
    (he : c.callClosure vm closure nparams stackbase k inst entry = some c') :
    Counts c c' (c.callClosureHooks vm closure nparams stackbase) := by
  cases closure with
  | closure r => exact h.execute hentry hr hp he
  | nativeclosure r => exact h.callNative hentry hp he
  | _ =>
    cases he
    exact h.back (.inr ⟨_, _, _, rfl⟩) hentry rfl rfl (h.generators ▸ h.ok.generators) rfl

theorem CallsFrom.call (h : CallsFrom c vm)
    (hr : CallMeets ClosureStays c vm closure nparams stackbase)
    (hp : CallMeets ClosureFits c vm closure nparams stackbase)
    (he : c.call vm closure nparams stackbase k = some c') :
    Counts c c' (c.callHooks vm closure nparams stackbase) := by
  have hentry : vm.snapshot.callsstack = c.vm.callsstack := h.callsstack
  have hplain (hr : ClosureStays c vm closure nparams stackbase)
      (hp : ClosureFits c vm closure nparams stackbase)
      (he : c.callClosure vm closure nparams stackbase k none vm.snapshot = some c') :
      Counts c c' (c.callClosureHooks vm closure nparams stackbase) :=
    h.callClosure hentry hr hp he
  cases closure with
  | clazz r =>
    have hst := SQVM.stored_createInstance vm
    simp only [Config.call] at he
    simp only [Config.callHooks]
    have hr' := fun vm' => hr vm'
    have hp' := fun vm' => hp vm'
    generalize c.heap.constructor r = constr at he hr' hp' ⊢
    have hconstr : (vm.createInstance.1.setSlot stackbase vm.createInstance.2).bind
          (fun vm' => c.callClosure vm' constr nparams stackbase k (some vm.createInstance.2)
            vm.snapshot) = some c' →
        Counts c c' ((vm.createInstance.1.setSlot stackbase vm.createInstance.2).elim []
          fun vm' => c.callClosureHooks vm' constr nparams stackbase) := by
      intro he
      obtain ⟨vm₁, hset, he⟩ := Option.bind_eq_some_iff.mp he
      rw [hset]
      exact (h.store (hst.trans (SQVM.stored_setSlot hset))).callClosure hentry (hr' vm₁ hset)
        (hp' vm₁ hset) he
    cases constr with
    | null =>
      cases he
      exact h.back (.inr ⟨_, _, _, rfl⟩) hentry rfl rfl (h.generators ▸ h.ok.generators) rfl
    | _ => exact hconstr he
  | _ => exact hplain hr hp he

end Calls

theorem CallsFrom.moved (h : CallsFrom c c.vm) (hm : Moved c.vm vm) : CallsFrom c vm where
  owned := h.owned
  ok := h.ok
  callsstack := hm.callsstack
  suspended := hm.kept.suspended
  generators := hm.generators

theorem moved_pushAll {os : List SQObject} (h : vm.pushAll os = some vm') : Moved vm vm' := by
  induction os generalizing vm with
  | nil => exact Option.some.inj h ▸ moved_store (.refl vm)
  | cons o os ih =>
    obtain ⟨vm₁, h₁, h⟩ := Option.bind_eq_some_iff.mp h
    exact (moved_push h₁).trans (ih h)

/-- A call out of C++ code. -/
theorem CallsFrom.reenter (h : CallsFrom c c.vm) {closure : SQObject} {args : List SQObject}
    {metamethod : Bool} {arg0 : Option (BitVec 8)}
    (hr : ReenterMeets ClosureStays c c.vm closure args metamethod)
    (hp : ReenterMeets ClosureFits c c.vm closure args metamethod)
    (he : c.reenter c.vm closure args metamethod arg0 = some c') :
    Counts c c' (c.reenterHooks c.vm closure args metamethod) := by
  obtain ⟨vm₁, hpush, he⟩ := Option.bind_eq_some_iff.mp he
  have hcalls := h.moved (moved_pushAll hpush)
  rw [Config.reenterHooks, hpush, Option.elim_some]
  have hr₁ := hr vm₁ hpush
  have hp₁ := hp vm₁ hpush
  cases metamethod with
  | true =>
    exact CallsFrom.call ⟨hcalls.owned, hcalls.ok, hcalls.callsstack, hcalls.suspended,
      hcalls.generators⟩ hr₁ hp₁ he
  | false => exact hcalls.call hr₁ hp₁ he

section Instructions

variable (h : Running c a rest ci own)
include h

/-- An instruction calls from an `Execute`. -/
theorem Running.callsFrom : CallsFrom c c.vm := by
  have howned : Owned c.heap c.vm.suspended c.vm.callsstack c.active := by
    rw [h.active]
    exact ⟨.script (ci :: own) h.entered h.script h.frames, h.below⟩
  exact ⟨howned, ⟨.owned howned, h.generators, h.entry⟩, rfl, rfl, rfl⟩

/-- The native function of a call instruction runs, or the instruction fails. -/
theorem Running.enterNative {r nargs : ℕ} {stkbase : ℤ} {ok : Bool} {k : Cont}
    (hst : SQVM.Stored c.vm vm) (hfits : EnterFits c vm (.nativeclosure r) nargs stkbase)
    (hs : vm.enterNative r (c.heap.nativeclosure r) nargs stkbase = some (vm', ok)) :
    Counts c (if ok then c.enter vm' .native .loop 0 k none vm.snapshot
      else c.throw vm' a rest) [] := by
  have hcalls := h.callsFrom.store hst
  have hentry : vm.snapshot.callsstack = c.vm.callsstack := hcalls.callsstack
  have hnative := hcalls.native k none hentry hfits hs
  cases ok with
  | true => exact hnative
  | false => exact h.throw hnative.1 hnative.2.1 hnative.2.2

/-- A closure is started, whether it is called or a constructor. -/
theorem Running.startsClosure {r args : ℕ} {target stackbase : ℤ} (hst : SQVM.Stored c.vm vm)
    (hfits : EnterFits c vm (.closure r) args stackbase)
    (hs : ((vm.startCall r (c.heap.closure r) target args stackbase false).map
      fun (vm, ok) => if ok then c.goto vm a rest .loop else c.throw vm a rest) = some c') :
    Counts c c' (vm.startCallHooks r (c.heap.closure r) target args stackbase false) := by
  obtain ⟨⟨vm', ok⟩, hs', rfl⟩ := Option.map_eq_some_iff.mp hs
  exact h.startCall hst hfits hs'

theorem Running.startsNative {r nargs : ℕ} {stkbase : ℤ} {k : Cont} (hst : SQVM.Stored c.vm vm)
    (hfits : EnterFits c vm (.nativeclosure r) nargs stkbase)
    (hs : ((vm.enterNative r (c.heap.nativeclosure r) nargs stkbase).map
      fun (vm', ok) => if ok then c.enter vm' .native .loop 0 k none vm.snapshot
        else c.throw vm' a rest) = some c') : Counts c c' [] := by
  obtain ⟨⟨vm', ok⟩, hs', rfl⟩ := Option.map_eq_some_iff.mp hs
  exact h.enterNative hst hfits hs'

theorem Running.opCall {arg0 : BitVec 8} {arg1 arg2 arg3 : ℕ}
    (hr : MetacallMeets ClosureStays c arg1 arg2 arg3)
    (hp : MetacallMeets ClosureFits c arg1 arg2 arg3) (hfits : OpCallFits c arg0 arg1 arg2 arg3)
    (hs : c.opCall a rest arg0 arg1 arg2 arg3 = some c') :
    Counts c c' (c.opCallHooks arg0 arg1 arg2 arg3) := by
  unfold Config.opCall at hs
  obtain ⟨clo, hclo, hs⟩ := Option.bind_eq_some_iff.mp hs
  unfold OpCallFits at hfits
  unfold Config.opCallHooks
  simp only [hclo] at hfits ⊢
  have hrefuse : Counts c (c.throw (c.vm.raiseError "attempt to call '%s'") a rest) [] :=
    h.throw rfl rfl rfl
  cases clo with
  | closure r => exact h.startsClosure (.refl _) hfits hs
  | nativeclosure r => exact h.startsNative (.refl _) hfits hs
  | clazz r =>
    simp only at hfits ⊢
    obtain ⟨vm₁, h₁, hs⟩ := Option.bind_eq_some_iff.mp hs
    have hdeliver : c.vm.createInstance.1.deliver arg0 c.vm.createInstance.2 = some vm₁ := h₁
    have hst := (SQVM.stored_createInstance c.vm).trans (SQVM.stored_deliver h₁)
    have hfits' := hfits vm₁
    generalize c.heap.constructor r = constr at hs hfits' ⊢
    cases constr with
    | closure r =>
      obtain ⟨vm₂, h₂, hs⟩ := Option.bind_eq_some_iff.mp hs
      have hset : ((c.vm.createInstance.1.deliver arg0 c.vm.createInstance.2).bind fun vm =>
          vm.setSlot (c.vm.stackbase + arg2) c.vm.createInstance.2) = some vm₂ := by
        rw [hdeliver]
        exact h₂
      simp only [hset, Option.elim_some]
      exact h.startsClosure (hst.trans (SQVM.stored_setSlot h₂)) (hfits' vm₂ h₁ h₂) hs
    | nativeclosure r =>
      obtain ⟨vm₂, h₂, hs⟩ := Option.bind_eq_some_iff.mp hs
      exact h.startsNative (hst.trans (SQVM.stored_setSlot h₂)) (hfits' vm₂ h₁ h₂) hs
    | _ =>
      cases hs
      exact h.stays hst.callsstack hst.generators hst.stays.suspended rfl rfl (.inl rfl)
  | delegable type r =>
    have hr' := hr type r
    have hp' := hp type r
    simp only at hs ⊢
    generalize c.heap.metacall r = metacall at hs hr' hp' ⊢
    have hmeta : ((c.vm.slots (c.vm.stackbase + arg2) arg3).bind fun args =>
          c.reenter c.vm metacall (.delegable type r :: args) true (some arg0)) = some c' →
        Counts c c' ((c.vm.slots (c.vm.stackbase + arg2) arg3).elim [] fun args =>
          c.reenterHooks c.vm metacall (.delegable type r :: args) true) := by
      intro hs
      obtain ⟨args, hargs, hs⟩ := Option.bind_eq_some_iff.mp hs
      rw [hargs]
      exact h.callsFrom.reenter (hr' args hclo hargs) (hp' args hclo hargs) hs
    cases metacall with
    | null =>
      cases hs
      exact hrefuse
    | _ => exact hmeta hs
  | _ =>
    cases hs
    exact hrefuse

theorem Running.opTailcall {arg0 : BitVec 8} {arg1 arg2 arg3 : ℕ}
    (hr : MetacallMeets ClosureStays c arg1 arg2 arg3)
    (hp : MetacallMeets ClosureFits c arg1 arg2 arg3)
    (hfits : OpTailcallFits c arg0 arg1 arg2 arg3)
    (hs : c.opTailcall a rest arg0 arg1 arg2 arg3 = some c') :
    Counts c c' (c.opTailcallHooks arg0 arg1 arg2 arg3) := by
  unfold Config.opTailcall at hs
  obtain ⟨t, ht, hs⟩ := Option.bind_eq_some_iff.mp hs
  unfold OpTailcallFits at hfits
  unfold Config.opTailcallHooks
  rw [ht] at hfits ⊢
  have hcall (hfits : OpCallFits c arg0 arg1 arg2 arg3)
      (hs : c.opCall a rest arg0 arg1 arg2 arg3 = some c') :
      Counts c c' (c.opCallHooks arg0 arg1 arg2 arg3) := h.opCall hr hp hfits hs
  cases t with
  | closure r =>
    simp only [h.frames] at hs hfits ⊢
    split_ifs at hs hfits ⊢ with hgen
    · exact hcall hfits hs
    · obtain ⟨vm₁, hmove, hs⟩ := Option.bind_eq_some_iff.mp hs
      obtain ⟨⟨vm₂, ok⟩, hstart, rfl⟩ := Option.map_eq_some_iff.mp hs
      rw [hmove, Option.elim_some]
      have hst := SQVM.stored_moveArgs hmove
      have hclosed : SQVM.Kept c.vm (c.vm.closeOuters c.vm.stackbase) := ⟨rfl, rfl, rfl⟩
      have hcs₁ : vm₁.callsstack = ci :: (own ++ a.entry.callsstack) :=
        hst.callsstack.trans h.frames
      have hgen' : (c.heap.closure r).function.bgenerator = false := Bool.eq_false_iff.mpr hgen
      have hbase : vm₁.stackbase = c.vm.stackbase := congrArg Snapshot.stackbase hst.snapshot
      have hroom : accepts (c.heap.closure r).function arg3 = true →
          vm₁.HasRoom (vm₁.stackbase + (c.heap.closure r).function.stacksize) := by
        intro hacc
        rw [hbase]
        exact hst.hasRoom.mpr (hfits hacc)
      obtain ⟨-, hk, hgens⟩ := SQVM.startCall_tail hcs₁ hgen' hstart
      have hsusp : vm₂.suspended = c.vm.suspended := hk.suspended.trans hst.stays.suspended
      have hgens' : vm₂.generators = c.vm.generators := hgens.trans hst.generators
      rcases SQVM.startCall_tail_frames hcs₁ hgen' hstart hroom with
        ⟨hcs₂, hcalls⟩ | ⟨⟨ci', hcs₂, hclo, hn⟩, hcalls⟩
      · rw [hcalls]
        have hcs := hcs₂.trans h.frames.symm
        cases ok with
        | true => exact h.stays hcs hgens' hsusp rfl rfl (.inl rfl)
        | false => exact h.throw hcs hgens' hsusp
      · rw [hcalls]
        have hci' : ScriptFrame c.heap ci' :=
          ⟨r, hclo, fun hg => absurd hg (by rw [hgen']; exact Bool.false_ne_true)⟩
        have hscript : ∀ f ∈ ci' :: own, ScriptFrame c.heap f := by
          intro f hf
          cases hf with
          | head => exact hci'
          | tail _ hf => exact h.script f (.tail _ hf)
        have hbalance : scriptCalls vm₂.callsstack + 0 = scriptCalls c.vm.callsstack + 1 := by
          rw [hcs₂, h.frames, scriptCalls_cons hci'.script,
            scriptCalls_cons (h.script ci (.head _)).script, hn]
          omega
        have hsaved : SavedCalls c.heap vm₂.generators := hgens' ▸ h.generators
        cases ok with
        | true =>
          exact h.goto (ci' :: own) hcs₂ hscript hsaved hsusp rfl rfl (.inl rfl) hbalance
        | false =>
          exact h.goto (ci' :: own) hcs₂ hscript hsaved hsusp rfl rfl (.inr ⟨_, _, rfl⟩) hbalance
  | _ => exact hcall hfits hs

/-- `Return` in the state `vm`, whose frames are those of the invocation. -/
theorem Running.returned {traps arg0 arg1 : ℤ} {r : SQVM × Bool × SQObject}
    (hcs : vm.callsstack = c.vm.callsstack) (hgens : SavedCalls c.heap vm.generators)
    (hsusp : vm.suspended = c.vm.suspended) (hs : vm.Return arg0 arg1 = some r) :
    Counts c (c.returned { a with traps := traps } rest r) (List.replicate ci.ncalls .r) := by
  obtain ⟨vm', b, res⟩ := r
  obtain ⟨hb, hleave, hg, hk⟩ := SQVM.Return_spec (hcs.trans h.frames) hs
  have hleft : Counts c (if ci.root then c.finish vm' { a with traps := traps } rest true res
      else c.goto vm' { a with traps := traps } rest .loop) (List.replicate ci.ncalls .r) :=
    h.leave (congrArg Snapshot.callsstack hleave) (hg ▸ hgens) (hk.suspended.trans hsusp)
      (.inl rfl)
  rw [← hb] at hleft
  cases b with
  | true => exact hleft
  | false => exact hleft

omit h in
theorem killCi_saved {heap : Heap} (h : SavedCalls heap vm.generators) :
    SavedCalls heap vm.killCi.generators := by
  unfold SQVM.killCi
  split
  · intro gen hmem hsusp
    obtain ⟨i, hi, rfl⟩ := List.mem_iff_getElem.mp hmem
    simp only [SQVM.kill, List.getElem_modify] at hsusp ⊢
    split_ifs at hsusp ⊢
    exact h _ (List.getElem_mem _) hsusp
  · exact h

theorem Running.opReturn {arg0 arg1 : ℕ} (hs : c.opReturn a rest arg0 arg1 = some c') :
    Counts c c' c.vm.returnHooks := by
  obtain ⟨r, hret, rfl⟩ := Option.map_eq_some_iff.mp hs
  obtain ⟨hkill, hk, -⟩ := killCi_spec c.vm
  rw [SQVM.returnHooks_cons h.frames]
  exact h.returned (congrArg Snapshot.callsstack hkill) (killCi_saved h.generators)
    hk.suspended hret

theorem Running.opYield {arg0 arg1 arg2 : ℕ}
    (hfunc : ByCompiler c (.instr (.yield arg0 arg1 arg2)))
    (hs : c.opYield a rest arg0 arg1 arg2 = some c') : Counts c c' (c.opYieldHooks arg2) := by
  -- the function that yields has made no tail call
  have hsaved : SavedCall c.heap ci := by
    obtain ⟨r, hclo, hone⟩ := h.script ci (.head _)
    have hgen := hfunc ci r (by rw [h.frames]; rfl) hclo
    exact ⟨r, ⟨hclo, hone hgen⟩, hgen⟩
  unfold Config.opYield at hs
  split at hs
  · rename_i g etraps _ fs hcs
    simp only [Config.opYieldHooks, hcs]
    obtain ⟨temp, _, hs⟩ := Option.bind_eq_some_iff.mp hs
    obtain ⟨⟨vm₁, ok⟩, hyield, hs⟩ := Option.bind_eq_some_iff.mp hs
    obtain ⟨hcs₁, hgens₁⟩ := SQVM.yield_frames h.frames hyield
    have hsusp₁ : vm₁.suspended = c.vm.suspended :=
      (SQVM.yield_spec h.frames hyield).2.1.suspended
    have hsaved₁ : SavedCalls c.heap vm₁.generators := by
      rcases hgens₁ with hgens₁ | ⟨gen, hgens₁, hgen⟩
      · exact hgens₁ ▸ h.generators
      · obtain ⟨r, ⟨hclo, hn⟩, hfunc⟩ := hsaved
        rw [hgens₁]
        exact h.generators.set _ fun _ =>
          ⟨r, ⟨by rw [hgen]; exact hclo, by rw [hgen]; exact hn⟩, hfunc⟩
    rw [hyield]
    cases ok with
    | false =>
      cases hs
      exact h.goto (ci :: own) (hcs₁.trans h.frames) h.script hsaved₁ hsusp₁ rfl rfl
        (.inr ⟨_, _, rfl⟩) (congrArg (scriptCalls · + 0) hcs₁)
    | true =>
      obtain ⟨vm₂, hput, hs⟩ := Option.bind_eq_some_iff.mp hs
      obtain ⟨r, hret, rfl⟩ := Option.map_eq_some_iff.mp hs
      have hst : SQVM.Stored vm₁ vm₂ := by
        split_ifs at hput
        · exact SQVM.stored_setSlot hput
        · exact Option.some.inj hput ▸ .refl vm₁
      change Counts c _ vm₁.returnHooks
      rw [SQVM.returnHooks_cons (hcs₁.trans h.frames)]
      exact h.returned (hst.callsstack.trans hcs₁) (hst.generators ▸ hsaved₁)
        (hst.stays.suspended.trans hsusp₁) hret
  · rename_i hnone
    cases hs
    unfold Config.opYieldHooks
    split
    · rename_i hcs
      exact (hnone _ _ _ _ _ _ _ _ _ hcs).elim
    · exact h.throw rfl rfl rfl

/-- A generator gets its frame back. -/
theorem Running.resume {g : ℕ} {dest : ℤ} {ok : Bool} {a' : Activation} {pc : Pc}
    (hst : SQVM.Stored c.vm vm) (hfits : ResumeFits c.vm (some (.generator g)))
    (hs : vm.resume g dest = some (vm', ok)) (hkind : a'.kind = a.kind)
    (hentry : a'.entry = a.entry) (hpc : pc = .loop ∨ ∃ err top, pc = .trap err top)
    (hok : ok = true → pc = .loop) :
    Counts c (c.goto vm' a' rest pc) (vm.resumeHooks g dest) := by
  have hsusp := (SQVM.resume_spec hs).1.suspended.trans hst.stays.suspended
  have htop : vm.top = c.vm.top := congrArg Snapshot.top hst.snapshot
  have hresumed := SQVM.resume_frames hs fun gen hgen hstate => by
    rw [htop]
    exact hst.hasRoom.mpr (hfits g gen rfl (hst.generators ▸ hgen) hstate)
  generalize vm.resumeHooks g dest = calls at hresumed ⊢
  cases hresumed with
  | refused hcs hgens =>
    exact h.stays (hcs.trans hst.callsstack) (hgens.trans hst.generators) hsusp hkind hentry hpc
  | entered f gen gen' hgen hstate hclo hn hcs hgens hrun =>
    rw [hst.generators] at hgen hgens
    obtain ⟨r, ⟨hr, hone⟩, -⟩ := h.generators gen (List.mem_of_getElem? hgen) hstate
    have hsaved : SavedCalls c.heap vm'.generators := by
      rw [hgens]
      exact h.generators.set _ fun hs => by rw [hrun] at hs; cases hs
    rw [hok rfl]
    exact h.push (hcs.trans (by rw [hst.callsstack])) ⟨r, hclo.trans hr, fun _ => hn.trans hone⟩
      (hn.trans hone) hsaved hsusp hkind hentry

theorem Running.opResume {arg0 arg1 : ℕ} (hfits : ResumeFits c.vm (c.vm.stk arg1))
    (hs : c.opResume a rest arg0 arg1 = some c') : Counts c c' (c.opResumeHooks arg0 arg1) := by
  obtain ⟨o, ho, hs⟩ := Option.bind_eq_some_iff.mp hs
  unfold Config.opResumeHooks
  rw [ho] at hfits ⊢
  have hrefuse : ∀ s, Counts c (c.throw (c.vm.raiseError s) a rest) [] :=
    fun s => h.throw rfl rfl rfl
  cases o with
  | generator g =>
    obtain ⟨⟨vm', ok⟩, hresume, rfl⟩ := Option.map_eq_some_iff.mp hs
    cases ok with
    | true =>
      exact h.resume (.refl _) hfits hresume rfl rfl (.inl rfl) fun _ => rfl
    | false => exact h.resume (.refl _) hfits hresume rfl rfl (.inr ⟨_, _, rfl⟩) nofun
  | _ =>
    cases hs
    exact hrefuse _

/-- Nothing happens. -/
theorem Running.idle : Counts c c [] :=
  ⟨h.callsFrom.ok, rfl, .same rfl⟩

theorem Running.opForeach {arg0 arg2 : ℕ} (hfits : ResumeFits c.vm (c.vm.stk arg0))
    (hs : c.opForeach a rest arg0 arg2 = some c') : Counts c c' (c.opForeachHooks arg0 arg2) := by
  obtain ⟨o, ho, hs⟩ := Option.bind_eq_some_iff.mp hs
  unfold Config.opForeachHooks
  rw [ho] at hfits ⊢
  have hidle : some c = some c' → Counts c c' [] := by
    intro hs
    cases hs
    exact h.idle
  cases o with
  | generator g =>
    simp only at hs ⊢
    split at hs
    · cases hs
    · rename_i hstate
      rw [hstate]
      exact hidle hs
    · rename_i hstate
      rw [hstate]
      cases hs
      exact h.throw rfl rfl rfl
    · rename_i hstate
      obtain ⟨o4, ho4, hs⟩ := Option.bind_eq_some_iff.mp hs
      obtain ⟨vm₁, h₁, hs⟩ := Option.bind_eq_some_iff.mp hs
      obtain ⟨vm₂, h₂, hs⟩ := Option.bind_eq_some_iff.mp hs
      obtain ⟨⟨vm₃, ok⟩, hresume, rfl⟩ := Option.map_eq_some_iff.mp hs
      have hset : ((c.vm.setStk arg2 (Config.nextIdx o4)).bind fun vm =>
          vm.setStk (arg2 + 2) (Config.nextIdx o4)) = some vm₂ := by
        rw [h₁]
        exact h₂
      rw [hstate, ho4]
      simp only [hset, Option.elim_some]
      exact h.resume ((SQVM.stored_setSlot h₁).trans (SQVM.stored_setSlot h₂)) hfits hresume rfl rfl
        (.inl rfl) fun _ => rfl
  | _ => exact hidle hs

omit h in
private theorem popTraps_frames {ci : CallInfo} {fs : List CallInfo} {n : ℕ}
    (hcs : vm.callsstack = ci :: fs) (hs : vm.popTraps n = some vm') :
    (∃ ci', vm'.callsstack = ci' :: fs ∧ ci'.closure = ci.closure ∧ ci'.ncalls = ci.ncalls) ∧
      vm'.generators = vm.generators ∧ vm'.suspended = vm.suspended := by
  induction n generalizing vm ci with
  | zero => exact Option.some.inj hs ▸ ⟨⟨ci, hcs, rfl, rfl⟩, rfl, rfl⟩
  | succ n ih =>
    simp only [SQVM.popTraps] at hs
    split at hs
    · cases hs
    · rename_i etraps _
      have hcs₁ : ({ vm with etraps := etraps } : SQVM).callsstack = ci :: fs := hcs
      obtain ⟨⟨ci', hcs', hclo, hn⟩, hgens, hsusp⟩ := ih (SQVM.setCi_callsstack hcs₁ _) hs
      exact ⟨⟨ci', hcs', hclo, hn⟩, hgens, hsusp⟩

omit h in
/-- A step that leaves the frames and the generators alone. -/
theorem FramesOk.same (h : FramesOk c) (hcs : vm.callsstack = c.vm.callsstack)
    (hgens : vm.generators = c.vm.generators) (hsusp : vm.suspended = c.vm.suspended) :
    Counts c { c with vm := vm } [] := by
  refine ⟨⟨?_, ?_, fun hs => h.entry (hsusp.symm.trans hs)⟩, congrArg (scriptCalls · + 0) hcs,
    .same rfl⟩
  · cases h.placed with
    | owned howned =>
      refine .owned ?_
      change Owned c.heap vm.suspended vm.callsstack c.active
      rw [hcs, hsusp]
      exact howned
    | suspended a res hact hpc hs hscript =>
      exact .suspended a res hact hpc (hsusp.trans hs) fun f hf => hscript f (hcs ▸ hf)
  · change SavedCalls c.heap vm.generators
    rw [hgens]
    exact h.generators

theorem Running.instr {i : Instr} (hr : KeepsRoots c (.instr i)) (hp : GetsFrames c (.instr i))
    (hc : ByCompiler c (.instr i)) (hs : c.instr a rest i = some c') :
    Counts c c' (c.instrHooks i) := by
  have hok := h.callsFrom.ok
  have hstored : ∀ vm, SQVM.Stored c.vm vm → Counts c { c with vm := vm } [] :=
    fun vm hst => hok.same hst.callsstack hst.generators hst.stays.suspended
  cases i with
  | write reg o =>
    obtain ⟨vm, hset, rfl⟩ := Option.map_eq_some_iff.mp hs
    exact hstored vm (SQVM.stored_setSlot hset)
  | setOuter n o =>
    simp only [Config.instr] at hs
    split at hs
    · obtain ⟨vm, hset, rfl⟩ := Option.map_eq_some_iff.mp hs
      exact hstored vm (SQVM.stored_setSlot hset)
    · cases hs
      exact h.idle
  | capture reg =>
    cases hs
    obtain ⟨outers, houters⟩ := SQVM.findOuter_spec c.vm (c.vm.stackbase + reg)
    rw [houters]
    exact hok.same rfl rfl rfl
  | close arg1 =>
    cases hs
    exact hok.same rfl rfl rfl
  | call arg0 arg1 arg2 arg3 => exact h.opCall hr.1 hp.1 hp.2 hs
  | tailcall arg0 arg1 arg2 arg3 => exact h.opTailcall hr.1 hp.1 hp.2 hs
  | ret arg0 arg1 => exact h.opReturn hs
  | yield arg0 arg1 arg2 => exact h.opYield hc hs
  | resume arg0 arg1 => exact h.opResume hp.2 hs
  | foreach arg0 arg2 => exact h.opForeach hp.2 hs
  | pushTrap arg0 =>
    cases hs
    have hcs : (c.vm.pushTrap arg0).callsstack =
        { ci with etraps := ci.etraps + 1 } :: (own ++ a.entry.callsstack) := by
      have hcs₁ : ({ c.vm with etraps := ⟨c.vm.stackbase, c.vm.top, arg0⟩ :: c.vm.etraps } :
          SQVM).callsstack = ci :: (own ++ a.entry.callsstack) := h.frames
      exact SQVM.setCi_callsstack hcs₁ _
    exact h.setTop hcs rfl rfl rfl rfl rfl rfl (.inl rfl)
  | popTrap arg0 =>
    obtain ⟨vm, hpop, rfl⟩ := Option.map_eq_some_iff.mp hs
    obtain ⟨⟨ci', hcs, hclo, hn⟩, hgens, hsusp⟩ := popTraps_frames h.frames hpop
    exact h.setTop hcs hclo hn hgens hsusp rfl rfl (.inl rfl)
  | throw o =>
    cases hs
    exact h.throw rfl rfl rfl

/-- One round of the loop of `exception_trap`. -/
theorem Running.unwind {err : SQObject} {last_top : ℤ}
    (hs : c.unwind a rest err last_top = some c') : Counts c c' c.unwindHooks := by
  have htraps : Config.ciTraps c.vm = ci.etraps := by
    unfold Config.ciTraps
    rw [h.frames]
    rfl
  simp only [Config.unwind, h.frames] at hs
  rw [Config.unwindHooks, htraps]
  by_cases hcatch : ci.etraps > 0
  · rw [if_pos hcatch] at hs ⊢
    split at hs
    · cases hs
    · rename_i et etraps _
      obtain ⟨vm₁, hset, hs⟩ := Option.bind_eq_some_iff.mp hs
      obtain ⟨vm₂, hnull, rfl⟩ := Option.map_eq_some_iff.mp hs
      have hst₁ := SQVM.stored_setSlot hset
      have hst₂ := SQVM.stored_nullDown hnull
      have hcs₁ : vm₁.callsstack = ci :: (own ++ a.entry.callsstack) := hst₁.callsstack
      have hcs₂ := hst₂.callsstack.trans (SQVM.setCi_callsstack hcs₁ _)
      exact h.setTop hcs₂ rfl rfl (hst₂.generators.trans hst₁.generators)
        (hst₂.stays.suspended.trans hst₁.stays.suspended) rfl rfl (.inl rfl)
  · rw [if_neg hcatch] at hs ⊢
    obtain ⟨vm₁, hleave, rfl⟩ := Option.map_eq_some_iff.mp hs
    obtain ⟨hkill, hk, -⟩ := killCi_spec c.vm
    have hcs : c.vm.killCi.callsstack = ci :: (own ++ a.entry.callsstack) :=
      (congrArg Snapshot.callsstack hkill).trans h.frames
    obtain ⟨hleft, hgens, hk₁⟩ := SQVM.leaveFrame_spec hcs hleave
    have hcs₁ : vm₁.callsstack = own ++ a.entry.callsstack := congrArg Snapshot.callsstack hleft
    have hsaved : SavedCalls c.heap vm₁.generators := hgens ▸ killCi_saved h.generators
    have hsusp := hk₁.suspended.trans hk.suspended
    rw [SQVM.returnHooks_cons h.frames]
    have hleft (vm' : SQVM) (hvm : vm'.callsstack = vm₁.callsstack)
        (hg : vm'.generators = vm₁.generators) (hs : vm'.suspended = vm₁.suspended) :
        Counts c (if ci.root then c.finish vm' { a with traps := a.traps } rest false .null
          else c.goto vm' { a with traps := a.traps } rest (.trap err last_top))
          (List.replicate ci.ncalls .r) :=
      h.leave (hvm.trans hcs₁) (hg ▸ hsaved) (hs.trans hsusp) (.inr ⟨_, _, rfl⟩)
    have hgone := hleft vm₁ rfl rfl rfl
    have herror := hleft { vm₁ with lasterror := err } rfl rfl rfl
    cases hroot : ci.root with
    | true =>
      rw [hroot] at herror
      exact herror
    | false =>
      rw [hroot] at hgone
      exact hgone

end Instructions

end Squirt.Machine
