import Squirt.HookSteps

/-!
# The debug hook is told of every script function that is entered and left

The calls with 'c' and with 'r' differ by the script functions on the call stack, those of a
running hook aside. This takes that every frame is entered: `EnterFrame` may fail with the
frame in place and the hook not told.
-/

namespace Squirt.Machine

open GuardedRuns

variable {c c' : Config} {a : Activation} {rest : List Activation} {vm vm' : SQVM}

/-- The topmost invocation returns. -/
structure Returning (c : Config) (a : Activation) (rest : List Activation) (suspend : Bool) :
    Prop where
  active : c.active = a :: rest
  ok : FramesOk c
  /-- the frames as the caller knows them -/
  owned : Owned c.heap c.vm.suspended c.vm.callsstack rest
  found : rest ≠ [] → c.vm.callsstack = a.entry.callsstack
  linked : Linked a.cont rest
  back : rest ≠ [] → Back False c a rest suspend

private theorem FramesOk.returning (h : FramesOk c) (hgood : Good False c)
    (hactive : c.active = a :: rest)
    {ok : Bool} {res : SQObject} {suspend : Bool} (hpc : a.pc = .done ok res suspend) :
    Returning c a rest suspend := by
  have hentered : a.entered = false := by simp [Activation.entered, hpc]
  have howned : Owned c.heap c.vm.suspended c.vm.callsstack rest ∧
      (rest ≠ [] → c.vm.callsstack = a.entry.callsstack) := by
    cases h.placed with
    | owned howned =>
      rw [hactive] at howned
      obtain ⟨howns, hbelow⟩ := howned
      cases howns with
      | script _ hent => rw [hentered] at hent; cases hent
      | native _ _ hloop => rw [hpc] at hloop; cases hloop
      | none _ _ hframes => exact ⟨hframes ▸ hbelow, fun _ => hframes⟩
    | suspended a' res' hact _ hsusp hscript =>
      obtain ⟨-, rfl⟩ := List.cons.inj (hactive.symm.trans hact)
      exact ⟨⟨hscript, fun hs => by rw [hsusp] at hs; cases hs⟩, fun hne => (hne rfl).elim⟩
  cases hgood.nested with
  | host hnil => rw [hnil] at hactive; cases hactive
  | runs a' rest' hact hruns =>
    obtain ⟨rfl, rfl⟩ := List.cons.inj (hact.symm.trans hactive)
    cases hruns with
    | script hent => rw [hentered] at hent; cases hent
    | native _ hloop => rw [hpc] at hloop; cases hloop
    | failed _ hfailed => rw [hfailed] at hpc; cases hpc
  | back a' rest' ok' res' susp' hact hdone hcs hnn hent hsusp hbelow =>
    obtain ⟨rfl, rfl⟩ := List.cons.inj (hact.symm.trans hactive)
    rw [hpc] at hdone
    cases hdone
    exact ⟨hactive, h, howned.1, howned.2, hbelow.1,
      fun _ => ⟨hcs, hnn, hent, fun h => (hsusp h).2, hbelow, hgood.generators⟩⟩
  | suspended a' res' hact _ _ hl =>
    obtain ⟨rfl, rfl⟩ := List.cons.inj (hact.symm.trans hactive)
    exact ⟨hactive, h, howned.1, howned.2, hl, fun hne => (hne rfl).elim⟩

/-- The caller goes on with the frames it had. -/
theorem Returning.goesOn {suspend : Bool} (h : Returning c a rest suspend)
    (hcs : vm.callsstack = c.vm.callsstack) (hgens : vm.generators = c.vm.generators)
    (hsusp : vm.suspended = c.vm.suspended) : Counts c { c with vm := vm, active := rest } [] := by
  refine ⟨⟨.owned ?_, ?_, fun hs => h.ok.entry (hsusp.symm.trans hs)⟩,
    congrArg (scriptCalls · + 0) hcs, .returned a.entry.callsstack ?_ fun hne => ?_⟩
  · change Owned c.heap vm.suspended vm.callsstack rest
    rw [hcs, hsusp]
    exact h.owned
  · change SavedCalls c.heap vm.generators
    rw [hgens]
    exact h.ok.generators
  · simp [Config.found, h.active]
  · exact hcs.trans (h.found hne)

theorem Returning.moved {suspend : Bool} (h : Returning c a rest suspend) (hm : Moved c.vm vm) :
    Counts c { c with vm := vm, active := rest } [] :=
  h.goesOn hm.callsstack hm.generators hm.kept.suspended

/-- The instruction that has made the call fails. -/
theorem Returning.throw {suspend : Bool} {e : Activation} {es : List Activation}
    (h : Returning c a (e :: es) suspend) (hcs : vm.callsstack = c.vm.callsstack)
    (hgens : vm.generators = c.vm.generators) (hsusp : vm.suspended = c.vm.suspended)
    (hkind : e.kind = .execute) (hpc : e.pc = .loop) : Counts c (c.throw vm e es) [] := by
  have hent : ({ e with pc := .trap vm.lasterror vm.top } : Activation).entered = true := by
    simp [Activation.entered, hkind]
  refine ⟨⟨.owned ⟨?_, ?_⟩, ?_, fun hs => h.ok.entry (hsusp.symm.trans hs)⟩,
    congrArg (scriptCalls · + 0) hcs, .returned a.entry.callsstack ?_ fun _ => ?_⟩
  · obtain ⟨howns, -⟩ := h.owned
    cases howns with
    | script own _ hscript hframes => exact .script own hent hscript (hcs.trans hframes)
    | native _ hnative => rw [hkind] at hnative; cases hnative
    | none hnot => simp [Activation.entered, hkind, hpc] at hnot
  · change Owned c.heap vm.suspended e.entry.callsstack es
    rw [hsusp]
    exact h.owned.2
  · change SavedCalls c.heap vm.generators
    rw [hgens]
    exact h.ok.generators
  · simp [Config.found, Config.throw, Config.goto, h.active]
  · exact hcs.trans (h.found (List.cons_ne_nil _ _))

/-- The `Execute` that has called `suspend` returns and leaves its frames. -/
theorem Returning.suspend {e : Activation} {es : List Activation}
    (h : Returning c a (e :: es) true) (hkind : e.kind = .execute) (hpc : e.pc = .loop)
    (arg0 : BitVec 8) (clo : SQObject) : Counts c (c.suspend e es arg0 clo) [] := by
  have hback := h.back (List.cons_ne_nil _ _)
  obtain ⟨hnn, hrun⟩ := hback.suspend rfl
  have hx : Executes False { c with vm := c.vm, active := e :: es } e es :=
    hback.executes rfl hkind hpc (.of_eq rfl rfl rfl rfl) rfl
  obtain rfl := hx.alone hnn
  obtain ⟨howns, -, hempty⟩ := h.owned
  have hnil : e.entry.callsstack = [] := hempty hrun
  refine ⟨⟨.suspended _ clo rfl rfl rfl ?_, h.ok.generators, fun _ => hnil⟩, rfl,
    .returned a.entry.callsstack ?_ fun _ => h.found (List.cons_ne_nil _ _)⟩
  · intro f hf
    cases howns with
    | script own _ hscript hframes =>
      rw [hnil, List.append_nil] at hframes
      exact hscript f (hframes ▸ hf)
    | native _ hnative => rw [hkind] at hnative; cases hnative
    | none hnot => simp [Activation.entered, hkind, hpc] at hnot
  · simp [Config.found, Config.suspend, Config.finish, h.active]

/-- The caller of an invocation takes the result. -/
theorem Returning.return_ {suspend ok : Bool} {res : SQObject} (h : Returning c a rest suspend)
    (hs : c.return_ rest ok res suspend a.cont = some c') : Counts c c' [] := by
  have hlinked := h.linked
  have hapi : ∀ k : Cont, k.OfApi → c.return_ rest ok res suspend k = some c' → Counts c c' [] := by
    intro k hk hs
    obtain ⟨vm, hm, rfl⟩ := return_api hs hk
    exact h.moved hm
  cases hcont : a.cont with
  | opCall arg0 =>
    rw [hcont] at hs hlinked
    obtain ⟨e, es, rfl, hkind, hpc⟩ := hlinked
    simp only [Config.return_] at hs
    split_ifs at hs with hok hsusp
    · cases hs
      exact h.throw rfl rfl rfl hkind hpc
    · cases hs
      subst hsusp
      exact h.suspend hkind hpc arg0 res
    · obtain ⟨vm, hput, rfl⟩ := Option.map_eq_some_iff.mp hs
      exact h.moved (moved_store (SQVM.stored_deliver hput))
  | opConstruct =>
    rw [hcont] at hs hlinked
    obtain ⟨e, es, rfl, hkind, hpc⟩ := hlinked
    simp only [Config.return_] at hs
    split_ifs at hs with hok
    · cases hs
      exact h.moved (moved_store (.refl _))
    · cases hs
      exact h.throw rfl rfl rfl hkind hpc
  | reenter nparams metamethod arg0 =>
    rw [hcont] at hs hlinked
    obtain ⟨vm, hpop, hs⟩ := Option.bind_eq_some_iff.mp hs
    -- `_nmetamethodscall` is counted down before the arguments are popped
    have hm : vm.callsstack = c.vm.callsstack ∧ vm.generators = c.vm.generators ∧
        vm.suspended = c.vm.suspended := by
      have hpopped := moved_pop hpop
      have hcs := hpopped.callsstack
      have hgens := hpopped.generators
      have hsusp := hpopped.kept.suspended
      cases metamethod with
      | true => exact ⟨hcs, hgens, hsusp⟩
      | false => exact ⟨hcs, hgens, hsusp⟩
    obtain ⟨hcs, hgens, hsusp⟩ := hm
    cases arg0 with
    | none =>
      cases hs
      exact h.goesOn hcs hgens hsusp
    | some arg0 =>
      obtain ⟨e, es, rfl, hkind, hpc⟩ := hlinked
      simp only at hs
      split_ifs at hs
      · obtain ⟨vm', hput, rfl⟩ := Option.map_eq_some_iff.mp hs
        have hst := SQVM.stored_deliver hput
        exact h.goesOn (hst.callsstack.trans hcs) (hst.generators.trans hgens)
          (hst.stays.suspended.trans hsusp)
      · cases hs
        exact h.throw hcs hgens hsusp hkind hpc
  | sqCall params retval =>
    rw [hcont] at hs
    exact hapi (.sqCall params retval) trivial hs
  | sqResume retval =>
    rw [hcont] at hs
    exact hapi (.sqResume retval) trivial hs
  | sqWakeup retval =>
    rw [hcont] at hs
    exact hapi (.sqWakeup retval) trivial hs

theorem FramesOk.cont (h : FramesOk c) (hgood : Good False c) (hactive : c.active = a :: rest)
    (hs : c.cont a rest = some c') : Counts c c' [] := by
  have hidle : Counts c c [] := ⟨h, rfl, .same rfl⟩
  unfold Config.cont at hs
  split at hs
  · cases hs
    exact hidle
  · cases hs
    exact hidle
  · rename_i hpc
    cases hs
    refine ⟨⟨.owned ?_, h.generators, h.entry⟩, rfl, .same ?_⟩
    · cases h.placed with
      | owned howned =>
        rw [hactive] at howned
        obtain ⟨howns, hbelow⟩ := howned
        refine ⟨?_, hbelow⟩
        cases howns with
        | script _ hent => simp [Activation.entered, hpc] at hent
        | native _ _ hloop => rw [hpc] at hloop; cases hloop
        | none _ _ hframes => exact .none (by simp [Activation.entered]) (by simp) hframes
      | suspended a' res hact hdone =>
        obtain ⟨rfl, -⟩ := List.cons.inj (hactive.symm.trans hact)
        rw [hpc] at hdone
        cases hdone
    · simp [Config.found, Config.finish, hactive]
  · rename_i ok res suspend hpc
    exact (h.returning hgood hactive hpc).return_ hs

/-- A native function returns: its frame is no script function's. -/
theorem FramesOk.nativeRet {r : NativeResult} (h : FramesOk c) (hactive : c.active = a :: rest)
    (hkind : a.kind = .native) (hpc : a.pc = .loop) (hs : c.nativeRet a rest r = some c') :
    Counts c c' [] := by
  obtain ⟨f, hscript, hframes, hbelow⟩ : ∃ f, f.script = false ∧
      c.vm.callsstack = f :: a.entry.callsstack ∧
      Owned c.heap c.vm.suspended a.entry.callsstack rest := by
    cases h.placed with
    | owned howned =>
      rw [hactive] at howned
      obtain ⟨howns, hbelow⟩ := howned
      cases howns with
      | script _ hent => simp [Activation.entered, hkind] at hent
      | native f _ _ hscript hframes => exact ⟨f, hscript, hframes, hbelow⟩
      | none _ hnot => exact (hnot ⟨hkind, hpc⟩).elim
    | suspended a' res hact hdone =>
      obtain ⟨rfl, -⟩ := List.cons.inj (hactive.symm.trans hact)
      rw [hpc] at hdone
      cases hdone
  have hback : ∀ (vm : SQVM) (ok : Bool) (res : SQObject) (suspend : Bool),
      ({ c.vm with nnativecalls := c.vm.nnativecalls - 1 } : SQVM).leaveFrame = some vm →
      Counts c { c with vm := vm, active := { a with pc := .done ok res suspend } :: rest } [] := by
    intro vm ok res suspend hleave
    have hcs₀ : ({ c.vm with nnativecalls := c.vm.nnativecalls - 1 } : SQVM).callsstack =
        f :: a.entry.callsstack := hframes
    obtain ⟨hleft, hgens, hk⟩ := SQVM.leaveFrame_spec hcs₀ hleave
    have hcs : vm.callsstack = a.entry.callsstack := congrArg Snapshot.callsstack hleft
    have hsusp : vm.suspended = c.vm.suspended := hk.suspended
    refine ⟨⟨.owned ⟨.none (by simp [Activation.entered]) (by simp) hcs, ?_⟩, ?_,
      fun hs => h.entry (hsusp.symm.trans hs)⟩, ?_, .same ?_⟩
    · change Owned c.heap vm.suspended a.entry.callsstack rest
      rw [hsusp]
      exact hbelow
    · change SavedCalls c.heap vm.generators
      rw [hgens]
      exact h.generators
    · change scriptCalls vm.callsstack + 0 = scriptCalls c.vm.callsstack + 0
      rw [hcs, hframes, scriptCalls_cons_native hscript]
    · simp [Config.found, hactive]
  unfold Config.nativeRet at hs
  cases r with
  | suspend =>
    simp only at hs
    split_ifs at hs
    · obtain ⟨vm, hleave, rfl⟩ := Option.map_eq_some_iff.mp hs
      exact hback vm _ _ _ hleave
    · obtain ⟨retval, _, hs⟩ := Option.bind_eq_some_iff.mp hs
      obtain ⟨vm, hleave, rfl⟩ := Option.map_eq_some_iff.mp hs
      exact hback vm _ _ _ hleave
  | fail =>
    obtain ⟨vm, hleave, rfl⟩ := Option.map_eq_some_iff.mp hs
    exact hback vm _ _ _ hleave
  | zero =>
    simp only [Bool.false_eq_true, if_false, Option.bind_some] at hs
    obtain ⟨vm, hleave, rfl⟩ := Option.map_eq_some_iff.mp hs
    exact hback vm _ _ _ hleave
  | value =>
    simp only [Bool.false_eq_true, if_false] at hs
    obtain ⟨retval, _, hs⟩ := Option.bind_eq_some_iff.mp hs
    obtain ⟨vm, hleave, rfl⟩ := Option.map_eq_some_iff.mp hs
    exact hback vm _ _ _ hleave

/-- C++ code that can call finds the frames with the invocations. -/
theorem FramesOk.callsFrom (h : FramesOk c) (hre : c.canReenter = true) : CallsFrom c c.vm := by
  cases h.placed with
  | owned howned => exact ⟨howned, h, rfl, rfl, rfl⟩
  | suspended a res hact hdone => simp [Config.canReenter, hact, hdone] at hre

/-- `sq_resume` -/
theorem CallsFrom.sqResume {retval : Bool} (h : CallsFrom c c.vm)
    (hr : c.vm.nnativecalls + 1 ≤ MAX_NATIVE_CALLS →
      Resumes { c.vm with top := c.vm.top + 1 } (c.vm.slot (c.vm.top - 1)))
    (hs : c.sqResume retval = some c') : Counts c c' c.sqResumeHooks := by
  obtain ⟨o, ho, hs⟩ := Option.bind_eq_some_iff.mp hs
  have hidle : some c = some c' → Counts c c' [] := by
    intro hs
    cases hs
    exact ⟨h.ok, rfl, .same rfl⟩
  unfold Config.sqResumeHooks
  rw [ho] at hr ⊢
  cases o with
  | generator g =>
    obtain ⟨vm, hpush, hs⟩ := Option.bind_eq_some_iff.mp hs
    have hm := moved_push hpush
    have hcalls := h.moved hm
    have hentry : vm.snapshot.callsstack = c.vm.callsstack := hcalls.callsstack
    simp only [hpush, Option.elim_some]
    simp only at hs
    have hsaved : ∀ gens, gens = vm.generators → SavedCalls c.heap gens := by
      rintro gens rfl
      rw [hcalls.generators]
      exact h.ok.generators
    split_ifs at hs ⊢ with hnn
    · cases hs
      exact hcalls.back (.inr ⟨_, _, _, rfl⟩) hentry rfl rfl (hsaved _ rfl) rfl
    · obtain ⟨⟨vm₁, ok⟩, hresume, hs⟩ := Option.bind_eq_some_iff.mp hs
      have hsusp : vm₁.suspended = vm.suspended := (SQVM.resume_spec hresume).1.suspended
      obtain ⟨vm₀, hst, hvm⟩ := SQVM.push_spec hpush
      have hnn' : c.vm.nnativecalls + 1 ≤ MAX_NATIVE_CALLS := by
        have := hm.nnativecalls
        omega
      obtain ⟨gen₀, hgen₀, hstate₀, hroom₀⟩ := hr hnn' g rfl
      have hgens₀ : vm.generators[g]? = some gen₀ := by
        rw [hcalls.generators]
        exact hgen₀
      have hroom : ∀ gen, vm.generators[g]? = some gen → gen.state = .suspended →
          SQVM.HasRoom { vm with nnativecalls := vm.nnativecalls + 1 }
            (vm.top + gen.stack.length) := by
        intro gen hgen _
        obtain rfl : gen₀ = gen := Option.some.inj (hgens₀.symm.trans hgen)
        rw [hvm]
        have hlen := hst.length_eq
        have hmeta := hst.stays.nmetamethodscall
        simp only [SQVM.HasRoom] at hroom₀ ⊢
        omega
      have hresumed := SQVM.resume_frames hresume hroom
      generalize SQVM.resumeHooks _ g (vm.top - 1) = calls at hresumed ⊢
      cases hresumed with
      | refused =>
        cases (SQVM.resume_spec hresume).1 with
        | refused _ _ hrefused =>
          refine (hrefused ?_).elim
          rw [hgens₀]
          exact congrArg some hstate₀
        | leaked _ gen hgen hstate _ _ _ hfull => exact (hfull (hroom gen hgen hstate)).elim
      | entered f gen gen' hgen hstate hclo hn hcs hgens hrun =>
        have hcs₁ : vm₁.callsstack = f :: vm.callsstack := hcs
        simp only [hcs₁, List.cons_ne_nil, if_false] at hs
        cases hs
        have hgen₁ : gen ∈ c.vm.generators := by
          rw [← hcalls.generators]
          exact List.mem_of_getElem? hgen
        obtain ⟨r, ⟨hr, hone⟩, -⟩ := h.ok.generators gen hgen₁ hstate
        have hroot : (vm₁.setCi fun ci => { ci with root := true }).callsstack =
            { f with root := true } :: c.vm.callsstack :=
          (SQVM.setCi_callsstack hcs₁ _).trans (by rw [hcalls.callsstack])
        have hframe : ScriptFrame c.heap { f with root := true } :=
          ⟨r, hclo.trans hr, fun _ => hn.trans hone⟩
        have hsaved₁ : SavedCalls c.heap vm₁.generators := by
          rw [hgens]
          exact (hsaved _ rfl).set _ fun hs => by rw [hrun] at hs; cases hs
        refine hcalls.enter hentry hsusp hsaved₁ (.script [{ f with root := true }] rfl
          (by simpa using hframe) (hroot.trans (by rw [← hentry]; rfl))) ?_
        change scriptCalls (vm₁.setCi _).callsstack + 0 = scriptCalls c.vm.callsstack + 1
        rw [hroot, scriptCalls_cons hframe.script, hn.trans hone]
        omega
  | _ => exact hidle hs

/-- The suspended invocation goes on as a new one. -/
theorem FramesOk.wakeup (h : FramesOk c) (hnil : c.active = []) (hsusp : c.vm.suspended = true)
    {pc : Pc} (hpc : pc = .loop ∨ ∃ err top, pc = .trap err top) {traps : ℤ} {k : Cont}
    {ci ci' : CallInfo} {fs : List CallInfo} (hcs : c.vm.callsstack = ci :: fs)
    (hcs' : vm.callsstack = ci' :: fs) (hclo : ci'.closure = ci.closure)
    (hn : ci'.ncalls = ci.ncalls) (hgens : vm.generators = c.vm.generators)
    (hrun : vm.suspended = false) :
    Counts c (c.enter vm .execute pc traps k none c.suspendedEntry) [] := by
  have hscript : ∀ f ∈ ci :: fs, ScriptFrame c.heap f := by
    cases h.placed with
    | owned howned =>
      rw [hnil, hcs] at howned
      exact howned.1
    | suspended a res hact => rw [hnil] at hact; cases hact
  have hci' : ScriptFrame c.heap ci' := by
    obtain ⟨r, hr, hone⟩ := hscript ci (.head _)
    exact ⟨r, hclo.trans hr, fun hgen => hn.trans (hone hgen)⟩
  have hnone : c.suspendedEntry.callsstack = [] := h.entry hsusp
  refine ⟨⟨.owned ⟨.script (ci' :: fs) ?_ ?_ ?_, ?_⟩, ?_, fun hs => ?_⟩, ?_,
    .called c.suspendedEntry.callsstack rfl⟩
  · rcases hpc with rfl | ⟨err, top, rfl⟩
    · rfl
    · rfl
  · intro f hf
    cases hf with
    | head => exact hci'
    | tail _ hf => exact hscript f (.tail _ hf)
  · change vm.callsstack = (ci' :: fs) ++ c.suspendedEntry.callsstack
    rw [hnone, List.append_nil, hcs']
  · change Owned c.heap vm.suspended c.suspendedEntry.callsstack c.active
    rw [hnil, hnone]
    exact ⟨nofun, fun _ => rfl⟩
  · change SavedCalls c.heap vm.generators
    rw [hgens]
    exact h.generators
  · change vm.suspended = true at hs
    rw [hrun] at hs
    cases hs
  · change scriptCalls vm.callsstack + 0 = scriptCalls c.vm.callsstack + 0
    rw [hcs, hcs', scriptCalls_cons hci'.script, scriptCalls_cons (hscript ci (.head _)).script, hn]

/-- `sq_wakeupvm` goes on with the frames of the suspended VM. -/
theorem FramesOk.sqWakeupvm {wakeupret retval throwerror : Bool} (h : FramesOk c)
    (hgood : Good False c)
    (hr : c.vm.suspended = true →
      c.active = [] ∧ c.vm.callsstack.head?.map (·.root) = some c.vm.suspendedRoot)
    (hs : c.sqWakeupvm wakeupret retval throwerror = some c') : Counts c c' [] := by
  unfold Config.sqWakeupvm at hs
  split at hs
  · cases hs
    exact ⟨h, rfl, .same rfl⟩
  · rename_i hsusp
    have hsusp : c.vm.suspended = true := by simpa using hsusp
    obtain ⟨hnil, hroot⟩ := hr hsusp
    have hnone : c.vm.nnativecalls = 0 := by
      cases hgood.nested with
      | host _ hidle => exact hidle.nnativecalls
      | runs a rest hact => rw [hnil] at hact; cases hact
      | back a rest ok res susp hact => rw [hnil] at hact; cases hact
      | suspended a res hact => rw [hnil] at hact; cases hact
    obtain ⟨vm, hput, hs⟩ := Option.bind_eq_some_iff.mp hs
    -- the value for the register of the call
    have hset : ∀ (vm vm' : SQVM) (o : SQObject),
        (if c.vm.suspendedTarget ≠ -1 then vm.setStk c.vm.suspendedTarget o else some vm) =
          some vm' → SQVM.Stored vm vm' := by
      intro vm vm' o h
      split_ifs at h
      · exact SQVM.stored_setSlot h
      · exact Option.some.inj h ▸ .refl vm
    have hm : Moved c.vm vm := by
      split at hput
      · obtain ⟨ret, _, hput⟩ := Option.bind_eq_some_iff.mp hput
        obtain ⟨vm₁, h₁, hpop⟩ := Option.bind_eq_some_iff.mp hput
        exact (moved_store (hset _ _ _ h₁)).trans (moved_pop hpop)
      · exact moved_store (hset _ _ _ hput)
    have hnn : vm.nnativecalls = 0 := hm.nnativecalls.trans hnone
    cases hcs : c.vm.callsstack with
    | nil =>
      rw [hcs] at hroot
      cases hroot
    | cons ci fs =>
      have hcs₁ : vm.callsstack = ci :: fs := hm.callsstack.trans hcs
      simp only [hnn, hcs₁, List.cons_ne_nil, if_false,
        if_neg (show ¬ 0 + 1 > MAX_NATIVE_CALLS by decide)] at hs
      cases hs
      refine h.wakeup hnil hsusp ?_ hcs rfl rfl rfl hm.generators rfl
      cases throwerror with
      | true => exact .inr ⟨_, _, rfl⟩
      | false => exact .inl rfl

theorem FramesOk.api {x : Api} (h : FramesOk c) (hgood : Good False c) (hin : c.inNative = true)
    (hr : KeepsRoots c (.api x)) (hp : GetsFrames c (.api x)) (hs : c.api x = some c') :
    Counts c c' (c.apiHooks x) := by
  have hcalls := h.callsFrom (canReenter_of_inNative hin)
  have hidle : Counts c c [] := ⟨h, rfl, .same rfl⟩
  have hmoved : ∀ vm, Moved c.vm vm → Counts c { c with vm := vm } [] :=
    fun vm hm => h.same hm.callsstack hm.generators hm.kept.suspended
  cases x with
  | push o =>
    obtain ⟨vm, hpush, rfl⟩ := Option.map_eq_some_iff.mp hs
    exact hmoved vm (moved_push hpush)
  | pop n =>
    simp only [Config.api] at hs
    split_ifs at hs
    · obtain ⟨vm, hpop, rfl⟩ := Option.map_eq_some_iff.mp hs
      exact hmoved vm (moved_pop hpop)
    · cases hs
      exact hidle
  | set i o =>
    simp only [Config.api] at hs
    split_ifs at hs
    · obtain ⟨vm, hset, rfl⟩ := Option.map_eq_some_iff.mp hs
      exact hmoved vm (moved_store (SQVM.stored_setSlot hset))
    · cases hs
      exact hidle
  | reservestack nsize =>
    cases hs
    unfold SQVM.reservestack
    split_ifs
    · exact h.same rfl rfl rfl
    · exact h.same rfl rfl rfl
    · exact hidle
  | call params retval =>
    simp only [Config.api] at hs
    simp only [Config.apiHooks]
    split_ifs at hs ⊢
    · obtain ⟨closure, hclosure, hs⟩ := Option.bind_eq_some_iff.mp hs
      rw [hclosure, Option.elim_some]
      exact hcalls.call (hr.1 closure hclosure) (hp.1 closure hclosure) hs
    · cases hs
      exact hidle
  | resume retval =>
    simp only [Config.api] at hs
    simp only [Config.apiHooks]
    split_ifs at hs ⊢
    · exact hcalls.sqResume hr.2 hs
    · cases hs
      exact hidle
  | wakeupvm wakeupret retval throwerror =>
    simp only [Config.api] at hs
    split_ifs at hs
    · exact h.sqWakeupvm hgood hr.2 hs
    · cases hs
      exact hidle

theorem ScriptFrame.sameKind {heap heap' : Heap} {f : CallInfo} (h : ScriptFrame heap f)
    (hk : SameKind heap heap' f.closure) : ScriptFrame heap' f := by
  obtain ⟨r, hr, hone⟩ := h
  exact ⟨r, hr, fun hgen => hone ((hk r hr).symm.trans hgen)⟩

theorem Owned.sameKind {heap heap' : Heap} {suspended : Bool} {frames : List CallInfo}
    {active : List Activation} (h : Owned heap suspended frames active)
    (hk : ∀ f ∈ frames, SameKind heap heap' f.closure) : Owned heap' suspended frames active := by
  induction active generalizing frames with
  | nil => exact ⟨fun f hf => (h.1 f hf).sameKind (hk f hf), h.2⟩
  | cons a rest ih =>
    obtain ⟨howns, hbelow⟩ := h
    cases howns with
    | script own hent hscript hframes =>
      subst hframes
      refine ⟨.script own hent (fun f hf => ?_) rfl, ih hbelow fun f hf => ?_⟩
      · exact (hscript f hf).sameKind (hk f (List.mem_append_left _ hf))
      · exact hk f (List.mem_append_right _ hf)
    | native f hkind hpc hscript hframes =>
      subst hframes
      exact ⟨.native f hkind hpc hscript rfl, ih hbelow fun g hg => hk g (.tail _ hg)⟩
    | none hent hnot hframes =>
      exact ⟨.none hent hnot hframes, ih hbelow fun f hf => hk f (hframes ▸ hf)⟩

/-- Classes and closures change, those that run stay. -/
theorem FramesOk.objects {heap : Heap} (h : FramesOk c) (hc : ByCompiler c (.objects heap)) :
    Counts c { c with heap := heap } [] := by
  refine ⟨⟨?_, fun gen hmem hsusp => ?_, h.entry⟩, rfl, .same rfl⟩
  · cases h.placed with
    | owned howned => exact .owned (howned.sameKind hc.1)
    | suspended a res hact hpc hsusp hscript =>
      exact .suspended a res hact hpc hsusp fun f hf => (hscript f hf).sameKind (hc.1 f hf)
  · obtain ⟨r, hcalled, hgen⟩ := h.generators gen hmem hsusp
    exact ⟨r, hcalled, (hc.2 gen hmem hsusp r hcalled.closure).trans hgen⟩

/-- The generators change, with those that are suspended in order. -/
theorem FramesOk.generatorsTo (h : FramesOk c) {generators : List SQGenerator}
    (hgens : SavedCalls c.heap generators) :
    Counts c { c with vm := { c.vm with generators := generators } } [] := by
  refine ⟨⟨?_, hgens, h.entry⟩, rfl, .same rfl⟩
  cases h.placed with
  | owned howned => exact .owned howned
  | suspended a res hact hpc hsusp hscript => exact .suspended a res hact hpc hsusp hscript

/-- The steps in which the calls of the hook match the frames. -/
def TellsHook (c : Config) (e : Event) : Prop := KeepsRoots c e ∧ GetsFrames c e ∧ ByCompiler c e

/-- One step of the VM. -/
theorem FramesOk.step {e : Event} (h : FramesOk c) (hgood : Good False c) (hg : TellsHook c e)
    (hs : c.step e = some c') : Counts c c' (c.hookCalls e) := by
  obtain ⟨hr, hp, hc⟩ := hg
  have hidle : some c = some c' → Counts c c' [] := by
    intro hs
    cases hs
    exact ⟨h, rfl, .same rfl⟩
  cases e with
  | instr i =>
    simp only [Config.step] at hs
    cases hact : c.active with
    | nil =>
      rw [hact] at hs
      simp only [Config.hookCalls, hact]
      exact hidle hs
    | cons a rest =>
      rw [hact] at hs
      simp only at hs
      split at hs
      · rename_i hkind hpc
        simp only [Config.hookCalls, hact, hkind, hpc]
        obtain ⟨ci, own, hrun⟩ := h.running (hgood.nested.executes hact hkind (.inl hpc))
        exact hrun.instr hr hp hc hs
      · simp only [Config.hookCalls, hact]
        exact hidle hs
  | api x =>
    simp only [Config.step] at hs
    simp only [Config.hookCalls]
    split_ifs at hs ⊢ with hin
    · exact h.api hgood hin hr hp hs
    · exact hidle hs
  | nativeRet r =>
    simp only [Config.step] at hs
    split at hs
    · rename_i a rest hact
      split at hs
      · rename_i hkind hpc
        exact h.nativeRet hact hkind hpc hs
      · exact hidle hs
    · exact hidle hs
  | reenter closure args metamethod =>
    simp only [Config.step] at hs
    simp only [Config.hookCalls]
    split_ifs at hs ⊢ with hre
    · exact (h.callsFrom hre).reenter hr.1 hp.1 hs
    · exact hidle hs
  | cont =>
    simp only [Config.step] at hs
    split at hs
    · rename_i a rest hact
      exact h.cont hgood hact hs
    · exact hidle hs
  | unwind =>
    simp only [Config.step] at hs
    simp only [Config.hookCalls]
    cases hact : c.active with
    | nil =>
      rw [hact] at hs
      exact hidle hs
    | cons a rest =>
      rw [hact] at hs
      simp only at hs ⊢
      cases hpc : a.pc with
      | trap err last_top =>
        rw [hpc] at hs
        have hkind := hgood.nested.execute_of_trap hact hpc
        obtain ⟨ci, own, hrun⟩ :=
          h.running (hgood.nested.executes hact hkind (.inr ⟨err, last_top, hpc⟩))
        exact hrun.unwind hs
      | loop =>
        rw [hpc] at hs
        exact hidle hs
      | failed =>
        rw [hpc] at hs
        exact hidle hs
      | done ok res suspend =>
        rw [hpc] at hs
        exact hidle hs
  | objects heap =>
    cases hs
    exact h.objects hc
  | foreign g gen =>
    simp only [Config.step] at hs
    split_ifs at hs
    · exact hidle hs
    · cases hs
      exact h.generatorsTo (h.generators.set g hc)
    · cases hs
      exact h.generatorsTo (h.generators.append hc)

/-- While the hook runs, the frames it has found are below its own. -/
structure HookRuns (s : Hooked) (run : HookRun) : Prop where
  found : ∃ above frames below, s.config.found = above ++ frames :: below ∧
    below ≠ [] ∧ below.length = run.invocations ∧ frames.length = run.frames ∧
    s.calls.count .c = s.calls.count .r + scriptCalls frames

/-- The invariant of every run with a hook. -/
structure HookOk (s : Hooked) : Prop where
  good : Good False s.config
  ok : FramesOk s.config
  idle : s.running = none →
    s.calls.count .c = s.calls.count .r + scriptCalls s.config.vm.callsstack
  runs : ∀ run, s.running = some run → HookRuns s run

/-- The steps of a VM with a hook. -/
def Hooked.Tells (s : Hooked) : HookedEvent → Prop
  | .vm e => TellsHook s.config e
  | .hook closure args => TellsHook s.config (.reenter closure args false)

/-- The call stacks that were found are parts of those above them. -/
theorem Owned.suffix {heap : Heap} {suspended : Bool} {frames : List CallInfo}
    {active : List Activation} (h : Owned heap suspended frames active) :
    ∀ fs ∈ active.map (·.entry.callsstack), fs <:+ frames := by
  induction active generalizing frames with
  | nil => nofun
  | cons a rest ih =>
    obtain ⟨howns, hbelow⟩ := h
    have hsuffix : a.entry.callsstack <:+ frames := by
      cases howns with
      | script own _ _ hframes => exact ⟨own, hframes.symm⟩
      | native f _ _ _ hframes => exact ⟨[f], hframes.symm⟩
      | none _ _ hframes => exact ⟨[], hframes.symm⟩
    intro fs hfs
    rw [List.map_cons, List.mem_cons] at hfs
    rcases hfs with rfl | hfs
    · exact hsuffix
    · exact (ih hbelow fs hfs).trans hsuffix

private theorem count_append_hooks {calls : List HookType} {n m : ℕ} (new : List HookType)
    (h : calls.count .c = calls.count .r + n) (hnew : m + new.count .r = n + new.count .c) :
    (calls ++ new).count .c = (calls ++ new).count .r + m := by
  rw [List.count_append, List.count_append]
  omega

theorem found_length (c : Config) : c.found.length = c.active.length := by
  simp [Config.found]

private theorem HookOk.step_vm {s s' : Hooked} {e : Event} (h : HookOk s)
    (hg : TellsHook s.config e)
    (hs : s.step (.vm e) = some s') : HookOk s' := by
  obtain ⟨c, hc, rfl⟩ := Option.map_eq_some_iff.mp hs
  have hcounts := h.ok.step h.good hg hc
  have hgood := h.good.step hg.1 False.elim hc
  cases hrun : s.running with
  | none =>
    refine ⟨hgood, hcounts.ok, fun _ => ?_, fun _ hnone => by cases hnone⟩
    exact count_append_hooks _ (h.idle hrun) hcounts.balance
  | some run =>
    obtain ⟨above, frames, below, hfound, hne, hlen, hframes, hcount⟩ := (h.runs run hrun).found
    -- the hook goes on as long as its invocation is there
    have hstays : ∀ above', c.found = above' ++ frames :: below →
        HookOk
          { config := c
            calls := s.calls
            running := (some run).filter fun h => h.invocations < c.active.length } := by
      intro above' hfound'
      have hlt : run.invocations < c.active.length := by
        rw [← found_length, hfound', List.length_append, List.length_cons]
        omega
      have hkept : (some run).filter (fun h => h.invocations < c.active.length) = some run := by
        simp [hlt]
      rw [hkept]
      exact ⟨hgood, hcounts.ok, fun hnone => absurd hnone (Option.some_ne_none run),
        fun run' hrun' => Option.some.inj hrun' ▸
          ⟨above', frames, below, hfound', hne, hlen, hframes, hcount⟩⟩
    cases hcounts.turn with
    | same heq => exact hstays above (heq.trans hfound)
    | called new heq => exact hstays (new :: above) (by rw [heq, hfound]; rfl)
    | returned old heq hback =>
      have hpop : old :: c.found = above ++ frames :: below := heq.symm.trans hfound
      cases above with
      | cons top above => exact hstays above (List.cons.inj hpop).2
      | nil =>
        -- the hook has returned
        obtain ⟨rfl, hrest⟩ := List.cons.inj hpop
        have hle : c.active.length ≤ run.invocations := by
          rw [← found_length, hrest, hlen]
        have hdone : (some run).filter (fun h => h.invocations < c.active.length) = none := by
          simp [hle]
        have hactive : c.active ≠ [] := by
          intro hnil
          rw [Config.found, hnil] at hrest
          exact hne hrest.symm
        rw [hdone]
        refine ⟨hgood, hcounts.ok, fun _ => ?_, fun _ hnone => by cases hnone⟩
        change s.calls.count .c = s.calls.count .r + scriptCalls c.vm.callsstack
        rw [hback hactive]
        exact hcount

section Found

variable {closure : SQObject} {r nparams : ℕ} {stackbase : ℤ} {k : Cont}
  {inst : Option SQObject} {entry : Snapshot}

private theorem execute_found (hs : c.execute vm r nparams stackbase k inst entry = some c') :
    c'.found = entry.callsstack :: c.found := by
  unfold Config.execute at hs
  split_ifs at hs
  · cases hs
    rfl
  · obtain ⟨⟨vm₁, ok⟩, _, hs⟩ := Option.bind_eq_some_iff.mp hs
    simp only at hs
    split_ifs at hs
    · cases hs
      rfl
    · obtain ⟨res, _, rfl⟩ := Option.map_eq_some_iff.mp hs
      rfl
    · cases hs
      rfl

private theorem callClosure_found
    (hs : c.callClosure vm closure nparams stackbase k inst entry = some c') :
    c'.found = entry.callsstack :: c.found := by
  cases closure with
  | closure r => exact execute_found hs
  | nativeclosure r =>
    obtain ⟨⟨vm₁, ok⟩, _, rfl⟩ := Option.map_eq_some_iff.mp hs
    rfl
  | _ =>
    cases hs
    rfl

/-- `SQVM::Call` starts an invocation. -/
theorem call_found (hs : c.call vm closure nparams stackbase k = some c') :
    c'.found = vm.callsstack :: c.found := by
  unfold Config.call at hs
  split at hs
  · simp only at hs
    split at hs
    · cases hs
      rfl
    · obtain ⟨vm₁, _, hs⟩ := Option.bind_eq_some_iff.mp hs
      exact callClosure_found hs
  · exact callClosure_found hs

end Found

private theorem HookOk.step_hook {s s' : Hooked} {closure : SQObject} {args : List SQObject}
    (h : HookOk s) (hg : TellsHook s.config (.reenter closure args false))
    (hs : s.step (.hook closure args) = some s') : HookOk s' := by
  simp only [Hooked.step] at hs
  split_ifs at hs with hstart
  · obtain ⟨hnone, hexec⟩ := hstart
    obtain ⟨c, hc, rfl⟩ := Option.map_eq_some_iff.mp hs
    have hcounts := h.ok.step h.good hg hc
    have hgood := h.good.step hg.1 False.elim hc
    have hidle := h.idle (Option.isNone_iff_eq_none.mp hnone)
    obtain ⟨a, rest, hact, hent⟩ :
        ∃ a rest, s.config.active = a :: rest ∧ a.entered = true := by
      cases hact : s.config.active with
      | nil => simp [Hooked.executing, hact] at hexec
      | cons a rest =>
        refine ⟨a, rest, rfl, ?_⟩
        simpa [Hooked.executing, hact] using hexec
    have hre : s.config.canReenter = true := by
      unfold Config.canReenter
      rw [hact]
      simp only
      split
      · rename_i hdone
        simp [Activation.entered, hdone] at hent
      · rfl
    simp only [Config.step, hre, if_true] at hc
    obtain ⟨vm₁, hpush, hcall⟩ := Option.bind_eq_some_iff.mp hc
    have hfound : c.found = s.config.vm.callsstack :: s.config.found := by
      rw [call_found hcall]
      exact congrArg (· :: s.config.found) (moved_pushAll hpush).callsstack
    refine ⟨hgood, hcounts.ok, fun hnone => absurd hnone (Option.some_ne_none _),
      fun run hrun => Option.some.inj hrun ▸
        ⟨[], s.config.vm.callsstack, s.config.found, hfound, ?_, found_length _, rfl, hidle⟩⟩
    simp [Config.found, hact]
  · cases hs
    exact h

private theorem hookOk_init (stacksize : ℕ) (callstackdata : ℕ → ℕ) (heap : Heap) :
    HookOk (Hooked.init stacksize callstackdata heap) where
  good := good_init False stacksize callstackdata heap
  ok := ⟨.owned ⟨nofun, fun _ => rfl⟩, nofun, nofun⟩
  idle _ := rfl
  runs := nofun

/-- What the calls of the hook say of the call stack. -/
structure Hooked.Balanced (s : Hooked) : Prop where
  /-- the difference is the number of script functions on the call stack -/
  difference : s.calls.count .c = s.calls.count .r + scriptCalls s.frames
  /-- a script that has run to its end has been left as often as it was entered -/
  completed : s.config.active = [] → s.config.vm.suspended = false →
    s.calls.count .c = s.calls.count .r

theorem HookOk.frames {s : Hooked} {run : HookRun} (h : HookOk s) (hrun : s.running = some run) :
    s.calls.count .c = s.calls.count .r + scriptCalls s.frames := by
  obtain ⟨above, frames, below, hfound, hne, -, hframes, hcount⟩ := (h.runs run hrun).found
  have howned : Owned s.config.heap s.config.vm.suspended s.config.vm.callsstack
      s.config.active := by
    cases h.ok.placed with
    | owned howned => exact howned
    | suspended a res hact =>
      -- the hook has been called from another invocation
      have hlen := congrArg List.length hfound
      have hpos := List.length_pos_iff.mpr hne
      rw [found_length, hact, List.length_append] at hlen
      simp only [List.length_cons, List.length_nil] at hlen
      omega
  have hsuffix : frames <:+ s.config.vm.callsstack := by
    refine howned.suffix frames ?_
    change frames ∈ s.config.found
    rw [hfound]
    exact List.mem_append_right _ (.head _)
  have heq : s.frames = frames := by
    obtain ⟨own, hown⟩ := hsuffix
    simp only [Hooked.frames, hrun]
    rw [← hframes, ← hown]
    simp
  rw [heq]
  exact hcount

private theorem HookOk.calls_balanced {s : Hooked} (h : HookOk s) : s.Balanced := by
  have hdiff : s.calls.count .c = s.calls.count .r + scriptCalls s.frames := by
    cases hrun : s.running with
    | none =>
      have hframes : s.frames = s.config.vm.callsstack := by rw [Hooked.frames, hrun]
      rw [hframes]
      exact h.idle hrun
    | some run => exact h.frames hrun
  refine ⟨hdiff, fun hnil hsusp => ?_⟩
  have hempty : s.config.vm.callsstack = [] := by
    cases h.ok.placed with
    | owned howned =>
      rw [hnil] at howned
      exact howned.2 hsusp
    | suspended a res hact => rw [hnil] at hact; cases hact
  have hframes : s.frames = [] := by
    unfold Hooked.frames
    rw [hempty]
    split
    · rfl
    · exact List.drop_nil
  rw [hframes] at hdiff
  exact hdiff

/-- In every run in which the frames are entered, the calls of the hook with 'c' and with 'r'
differ by the script functions on the call stack. -/
theorem hook_calls_balanced {stacksize : ℕ} {callstackdata : ℕ → ℕ} {heap : Heap} {s : Hooked}
    (h : Reach Hooked.step Hooked.Tells (Hooked.init stacksize callstackdata heap) s) :
    s.Balanced := by
  have hok : HookOk s := by
    refine h.invariant ?_ (hookOk_init stacksize callstackdata heap)
    intro s e s' hs hg hstep
    cases e with
    | vm e => exact hs.step_vm hg hstep
    | hook closure args => exact hs.step_hook hg hstep
  exact hok.calls_balanced

/-- Two functions, the second one with more registers. -/
def hookHeap : Heap where
  closure r := ⟨⟨2, if r = 0 then 4 else 8, 0, false, false⟩, [], none, List.length_nil⟩
  nativeclosure _ := ⟨0, [], [], none⟩
  constructor _ := .null
  metacall _ := .null

def hookedRun (events : List HookedEvent) : Option Hooked :=
  run Hooked.step (Hooked.init 20 id hookHeap) events

/-- The host calls the first function; the hook is called for it, and both return. -/
def hookReturns : List HookedEvent :=
  [.vm (.reenter (.closure 0) [.null, .null] false), .hook (.closure 0) [.null, .null],
    .vm (.instr (.ret 255 0)), .vm .cont, .vm (.instr (.ret 255 0)), .vm .cont]

/-- The host calls the first function as a metamethod. Its tail call of the second one does
not get a frame that is large enough. -/
def tailcallOverflows : List HookedEvent :=
  [.vm (.reenter (.closure 0) [.null, .null] true), .vm (.instr (.write 2 (.closure 1))),
    .vm (.instr (.tailcall 0 2 0 2)), .vm .unwind, .vm .cont]

private theorem hookReturns_runs : (hookedRun hookReturns).isSome = true := by decide

private theorem tailcallOverflows_runs : (hookedRun tailcallOverflows).isSome = true := by decide

/-- A call of the first function tells the hook. -/
theorem reenter_tellsHook {c : Config} (hheap : c.heap = hookHeap)
    (hmeta : c.vm.nmetamethodscall = 0) :
    TellsHook c (.reenter (.closure 0) [.null, .null] false) := by
  refine ⟨⟨?_, trivial⟩, ⟨?_, trivial⟩, trivial⟩
  · intro vm _ _ _ _ _ hgen
    rw [hheap] at hgen
    cases hgen
  · intro vm hpush _ _ _
    exact .inr ((moved_pushAll hpush).kept.nmetamethodscall.trans hmeta)

private theorem hookReturns_tells :
    Guarded Hooked.step Hooked.Tells (Hooked.init 20 id hookHeap) hookReturns := by
  have htrivial : ∀ s : Hooked, s.Tells (.vm (.instr (.ret 255 0))) ∧ s.Tells (.vm .cont) :=
    fun s => ⟨⟨⟨trivial, trivial⟩, ⟨trivial, trivial⟩, trivial⟩,
      ⟨⟨trivial, trivial⟩, ⟨trivial, trivial⟩, trivial⟩⟩
  refine ⟨reenter_tellsHook rfl rfl, fun s hs => ?_⟩
  cases hs
  refine ⟨reenter_tellsHook rfl rfl, fun s hs => ?_⟩
  cases hs
  refine ⟨(htrivial _).1, fun s hs => ⟨(htrivial _).2, fun s hs => ?_⟩⟩
  exact ⟨(htrivial _).1, fun s hs => ⟨(htrivial _).2, fun _ _ => trivial⟩⟩

theorem hook_calls_balanced_hookReturns :
    ((hookedRun hookReturns).get hookReturns_runs).Balanced :=
  hook_calls_balanced (reach_of_run hookReturns_tells (Option.some_get hookReturns_runs).symm)

/-- `EnterFrame` counts the tail call before it fails, and the exception reports two
functions where one was entered. -/
theorem tailcall_not_balanced :
    ¬ ∀ (stacksize : ℕ) (callstackdata : ℕ → ℕ) (heap : Heap) (s : Hooked),
      Reach Hooked.step (fun _ _ => True) (Hooked.init stacksize callstackdata heap) s →
        s.Balanced := by
  intro h
  have hcompleted := (h 20 id hookHeap ((hookedRun tailcallOverflows).get tailcallOverflows_runs)
    (reach_of_run (.of_forall (fun _ _ => trivial) _ tailcallOverflows)
      (Option.some_get tailcallOverflows_runs).symm)).completed
  revert hcompleted
  decide

end Squirt.Machine
