import Squirt.VmNestingSteps

/-!
# Every run keeps the nesting

The steps that end an invocation or that the host makes, and then any step.
-/

namespace Squirt.Machine

variable {P : Prop} {c c' : Config} {a : Activation} {rest : List Activation}
  {vm vm' vm'' : SQVM}

/-- C++ code works on its own part of the stack. -/
def Moved (vm vm' : SQVM) : Prop :=
  ∃ vm₁ top, SQVM.Stored vm vm₁ ∧ vm' = { vm₁ with top := top }

theorem moved_store (h : SQVM.Stored vm vm') : Moved vm vm' := ⟨vm', vm'.top, h, rfl⟩

theorem Moved.trans (h : Moved vm vm') (h' : Moved vm' vm'') : Moved vm vm'' := by
  obtain ⟨_, _, ⟨_, _, _, _, hlen, rfl⟩, rfl⟩ := h
  obtain ⟨_, top, ⟨st, ar, e, n, hlen', rfl⟩, rfl⟩ := h'
  exact ⟨_, top, ⟨st, ar, e, n, hlen'.trans hlen, rfl⟩, rfl⟩

theorem moved_push {o : SQObject} (h : vm.push o = some vm') : Moved vm vm' := by
  obtain ⟨vm₁, hst, rfl⟩ := SQVM.push_spec h
  exact ⟨vm₁, _, hst, rfl⟩

theorem moved_pop {n : ℕ} (h : vm.pop n = some vm') : Moved vm vm' := by
  obtain ⟨vm₁, hst, rfl⟩ := SQVM.pop_spec h
  exact ⟨vm₁, _, hst, rfl⟩

theorem Moved.callsstack (h : Moved vm vm') : vm'.callsstack = vm.callsstack := by
  obtain ⟨_, _, hst, rfl⟩ := h
  exact congrArg Snapshot.callsstack hst.snapshot

theorem Moved.stackbase (h : Moved vm vm') : vm'.stackbase = vm.stackbase := by
  obtain ⟨_, _, hst, rfl⟩ := h
  exact congrArg Snapshot.stackbase hst.snapshot

theorem Moved.etraps (h : Moved vm vm') : vm'.etraps = vm.etraps := by
  obtain ⟨_, _, hst, rfl⟩ := h
  exact congrArg Snapshot.etraps hst.snapshot

theorem Moved.nnativecalls (h : Moved vm vm') : vm'.nnativecalls = vm.nnativecalls := by
  obtain ⟨_, _, hst, rfl⟩ := h
  exact congrArg Snapshot.nnativecalls hst.snapshot

theorem Moved.generators (h : Moved vm vm') : vm'.generators = vm.generators := by
  obtain ⟨_, _, hst, rfl⟩ := h
  exact hst.generators

theorem Moved.kept (h : Moved vm vm') : SQVM.Kept vm vm' := by
  obtain ⟨_, _, hst, rfl⟩ := h
  exact ⟨hst.stays.suspended, hst.stays.suspendedRoot, hst.stays.nmetamethodscall⟩

theorem Moved.restored (h : Moved vm vm') : Restored P vm'.snapshot vm.snapshot :=
  .of_eq h.callsstack h.nnativecalls h.stackbase h.etraps

theorem Restored.trans {s s' s'' : Snapshot} (h : Restored P s'' s') (h' : Restored P s' s) :
    Restored P s'' s where
  callsstack := h.callsstack.trans h'.callsstack
  nnativecalls := h.nnativecalls.trans h'.nnativecalls
  places hP :=
    let ⟨hcs, hbase, htraps⟩ := h.places hP
    let ⟨hcs', hbase', htraps'⟩ := h'.places hP
    ⟨hcs.trans hcs', hbase.trans hbase', htraps.trans htraps'⟩

private theorem Restored.withTop {s s' : Snapshot} (h : s' = s) (top : ℤ) :
    Restored P { s' with top := top } s := by
  subst h
  exact .of_eq rfl rfl rfl rfl

/-- An invocation has returned with the frames as it found them. -/
structure Back (P : Prop) (c : Config) (a : Activation) (rest : List Activation)
    (suspend : Bool) : Prop where
  callsstack : Above c.vm.callsstack a.entry.callsstack
  nnativecalls : c.vm.nnativecalls = a.entry.nnativecalls
  entry : P → c.vm.snapshot = a.entry
  suspend : suspend = true → c.vm.nnativecalls = 1 ∧ c.vm.suspended = false
  below : Below P c.host a rest
  generators : P → c.vm.GeneratorsOk

/-- The state the caller of an invocation waits in differs in the arguments only. -/
theorem Back.restored {suspend : Bool} (h : Back P c a rest suspend) :
    Restored P c.vm.snapshot a.before := by
  have hbefore : Restored P a.entry a.before := by
    unfold Activation.before Cont.before
    split
    · exact .of_eq rfl rfl rfl rfl
    · exact .of_eq rfl rfl rfl rfl
  have hentry : Restored P c.vm.snapshot a.entry :=
    ⟨h.callsstack, h.nnativecalls, fun hP => by rw [h.entry hP]; exact ⟨rfl, rfl, rfl⟩⟩
  exact hentry.trans hbefore

/-- The caller is an `Execute` at a call instruction. -/
theorem Back.executes {suspend : Bool} (h : Back P c a rest suspend) {e : Activation}
    {es : List Activation} (hrest : rest = e :: es) (hkind : e.kind = .execute)
    (hpc : e.pc = .loop) (hr : Restored P vm.snapshot c.vm.snapshot)
    (hk : vm.suspended = c.vm.suspended) :
    Executes P { c with vm := vm, active := e :: es } e es := by
  have hw := h.below.2
  rw [hrest] at hw
  exact hw.executes hkind hpc (hr.trans h.restored) hk

/-- The caller is C++ code that keeps its own part of the stack. -/
theorem Back.native {suspend : Bool} (h : Back P c a rest suspend)
    (hl : ∀ e es, rest = e :: es → e.kind = .native ∧ e.pc = .loop)
    (hm : Moved c.vm vm) : Good P { c with vm := vm, active := rest } :=
  ⟨h.below.2.nested (hm.restored.trans h.restored) (.inl hl) hm.kept.suspended,
    fun hP => (h.generators hP).of_eq hm.generators⟩

/-- The arguments of a call out of C++ code are popped. -/
theorem Back.reenter {suspend ok : Bool} {res : SQObject} {nparams : ℕ} {metamethod : Bool}
    {arg0 : Option (BitVec 8)} (h : Back P c a rest suspend)
    (hcont : a.cont = .reenter nparams metamethod arg0)
    (hs : c.return_ rest ok res suspend a.cont = some c') : Good P c' := by
  rw [hcont] at hs
  simp only [Config.return_] at hs
  obtain ⟨vm₁, hpop, hs⟩ := Option.bind_eq_some_iff.mp hs
  obtain ⟨vm₂, hst, rfl⟩ := SQVM.pop_spec hpop
  obtain ⟨hlinked, hwaits⟩ := h.below
  -- the count of metamethod calls is not part of the frames
  obtain ⟨vm₀, hvm₀, hsnap₀, hgens₀, hsusp₀⟩ : ∃ vm₀ : SQVM, vm₀ = (if metamethod = true then
      { c.vm with nmetamethodscall := c.vm.nmetamethodscall - 1 } else c.vm) ∧
      vm₀.snapshot = c.vm.snapshot ∧ vm₀.generators = c.vm.generators ∧
      vm₀.suspended = c.vm.suspended := by
    refine ⟨_, rfl, ?_⟩
    split_ifs <;> exact ⟨rfl, rfl, rfl⟩
  rw [← hvm₀] at hs hst
  have hsnap : vm₂.snapshot = c.vm.snapshot := hst.snapshot.trans hsnap₀
  have hgens : P → vm₂.GeneratorsOk := fun hP =>
    (h.generators hP).of_eq (hst.generators.trans hgens₀)
  have hsusp : vm₂.suspended = c.vm.suspended := hst.stays.suspended.trans hsusp₀
  have htop : vm₀.top = c.vm.top := congrArg Snapshot.top hsnap₀
  have hr : Restored P ({ vm₂ with top := vm₀.top - nparams } : SQVM).snapshot c.vm.snapshot :=
    .withTop hsnap _
  split at hs
  · rename_i arg e es _
    obtain ⟨e', es', hrest, hkind, hpc⟩ : ∃ e' es', e :: es = e' :: es' ∧ e'.kind = .execute ∧
        e'.pc = .loop := by
      have hl := hlinked
      rw [hcont] at hl
      exact hl
    obtain ⟨rfl, rfl⟩ := List.cons.inj hrest
    have hex : Executes P { c with
        vm := { vm₂ with top := vm₀.top - nparams }, active := e :: es } e es :=
      h.executes rfl hkind hpc hr hsusp
    split_ifs at hs
    · obtain ⟨vm₃, hdel, rfl⟩ := Option.map_eq_some_iff.mp hs
      exact hex.stored hgens (SQVM.stored_deliver hdel)
    · cases hs
      exact ⟨hex.throw (hex.store (.refl _)), hgens⟩
  · cases hs
    refine ⟨hwaits.nested (hr.trans h.restored) (.inr fun hP => ?_) hsusp, hgens⟩
    have hset : ({ vm₂ with top := vm₀.top - nparams } : SQVM).snapshot =
        { vm₂.snapshot with top := vm₀.top - nparams } := rfl
    rw [hset, hsnap, htop, Activation.before, hcont, ← h.entry hP]
    rfl

/-- The API made the call. -/
def Cont.OfApi : Cont → Prop
  | .sqCall _ _ | .sqResume _ | .sqWakeup _ => True
  | _ => False

/-- The API pops the arguments and pushes the result. -/
theorem return_api {ok : Bool} {res : SQObject} {suspend : Bool} {k : Cont}
    (hs : c.return_ rest ok res suspend k = some c') (hk : k.OfApi) :
    ∃ vm, Moved c.vm vm ∧ c' = { c with vm := vm, active := rest } := by
  cases k with
  | sqCall params retval =>
    simp only [Config.return_] at hs
    split at hs
    · obtain ⟨vm₁, hpop, hs⟩ := Option.bind_eq_some_iff.mp hs
      obtain ⟨vm₂, hpush, rfl⟩ := Option.map_eq_some_iff.mp hs
      have hm₁ : Moved c.vm vm₁ := by
        split_ifs at hpop
        · exact Option.some.inj hpop ▸ moved_store (.refl _)
        · exact moved_pop hpop
      have hm₂ : Moved vm₁ vm₂ := by
        split_ifs at hpush
        · exact moved_push hpush
        · exact Option.some.inj hpush ▸ moved_store (.refl _)
      exact ⟨vm₂, hm₁.trans hm₂, rfl⟩
    · obtain ⟨vm₁, hpop, rfl⟩ := Option.map_eq_some_iff.mp hs
      exact ⟨vm₁, moved_pop hpop, rfl⟩
  | sqResume retval =>
    simp only [Config.return_] at hs
    split at hs
    · obtain ⟨vm₁, hset, hs⟩ := Option.bind_eq_some_iff.mp hs
      obtain ⟨vm₂, hpop, rfl⟩ := Option.map_eq_some_iff.mp hs
      have hm₂ : Moved vm₁ vm₂ := by
        split_ifs at hpop
        · exact Option.some.inj hpop ▸ moved_store (.refl _)
        · exact moved_pop hpop
      exact ⟨vm₂, (moved_store (SQVM.stored_setSlot hset)).trans hm₂, rfl⟩
    · cases hs
      exact ⟨c.vm, moved_store (.refl _), rfl⟩
  | sqWakeup retval =>
    obtain ⟨vm₁, hpush, rfl⟩ := Option.map_eq_some_iff.mp hs
    refine ⟨vm₁, ?_, rfl⟩
    split_ifs at hpush
    · exact moved_push hpush
    · exact Option.some.inj hpush ▸ moved_store (.refl _)
  | opCall arg0 => cases hk
  | opConstruct => cases hk
  | reenter nparams metamethod arg0 => cases hk

/-- The caller of an invocation takes the result. -/
theorem Back.return_ {suspend ok : Bool} {res : SQObject} (h : Back P c a rest suspend)
    (hs : c.return_ rest ok res suspend a.cont = some c') : Good P c' := by
  obtain ⟨hlinked, hwaits⟩ := h.below
  cases hcont : a.cont with
  | opCall arg0 =>
    obtain ⟨e, es, rfl, hkind, hpc⟩ : ∃ e es, rest = e :: es ∧ e.kind = .execute ∧
        e.pc = .loop := by
      have hl := hlinked
      rw [hcont] at hl
      exact hl
    have hex : Executes P { c with active := e :: es } e es :=
      h.executes rfl hkind hpc (.of_eq rfl rfl rfl rfl) rfl
    rw [hcont] at hs
    simp only [Config.return_] at hs
    split_ifs at hs with hnok hsusp
    · cases hs
      exact ⟨hex.throw (hex.store (.refl _)), h.generators⟩
    · cases hs
      obtain ⟨hnn, hrun⟩ := h.suspend hsusp
      exact ⟨hex.suspend hnn hrun arg0 res, h.generators⟩
    · obtain ⟨vm, hdel, rfl⟩ := Option.map_eq_some_iff.mp hs
      exact hex.stored h.generators (SQVM.stored_deliver hdel)
  | opConstruct =>
    obtain ⟨e, es, rfl, hkind, hpc⟩ : ∃ e es, rest = e :: es ∧ e.kind = .execute ∧
        e.pc = .loop := by
      have hl := hlinked
      rw [hcont] at hl
      exact hl
    have hex : Executes P { c with active := e :: es } e es :=
      h.executes rfl hkind hpc (.of_eq rfl rfl rfl rfl) rfl
    rw [hcont] at hs
    simp only [Config.return_] at hs
    split_ifs at hs
    · cases hs
      exact hex.good_self h.generators
    · cases hs
      exact ⟨hex.throw (hex.store (.refl _)), h.generators⟩
  | reenter nparams metamethod arg0 => exact h.reenter hcont hs
  | sqCall params retval =>
    rw [hcont] at hs hlinked
    obtain ⟨vm, hm, rfl⟩ := return_api hs trivial
    exact h.native hlinked hm
  | sqResume retval =>
    rw [hcont] at hs hlinked
    obtain ⟨vm, hm, rfl⟩ := return_api hs trivial
    exact h.native hlinked hm
  | sqWakeup retval =>
    rw [hcont] at hs hlinked
    obtain ⟨vm, hm, rfl⟩ := return_api hs trivial
    exact h.native hlinked hm

/-- The host takes the result of the invocation that suspended the VM. -/
theorem Idle.return_ {res : SQObject} (hidle : Idle P c.host c.vm.snapshot)
    (hg : P → c.vm.GeneratorsOk) {k : Cont} (hl : Linked k [])
    (hs : c.return_ [] true res false k = some c') : Good P c' := by
  -- only the host's part of the stack has changed
  have hdone : ∀ vm : SQVM, Moved c.vm vm → Good P { c with vm := vm, active := [] } := by
    intro vm hm
    refine ⟨.host rfl ?_, fun hP => (hg hP).of_eq hm.generators⟩
    rw [host_eq hm.kept]
    exact hidle.restored hm.restored
  cases k with
  | opCall arg0 =>
    obtain ⟨e, es, hnil, -⟩ := hl
    cases hnil
  | opConstruct =>
    obtain ⟨e, es, hnil, -⟩ := hl
    cases hnil
  | reenter nparams metamethod arg0 =>
    cases arg0 with
    | some arg0 =>
      obtain ⟨e, es, hnil, -⟩ := hl
      cases hnil
    | none =>
      obtain ⟨vm₁, hpop, hs⟩ := Option.bind_eq_some_iff.mp hs
      cases hs
      have hm := moved_pop hpop
      cases metamethod with
      | false => exact hdone vm₁ hm
      | true =>
        refine ⟨.host rfl ?_, fun hP => (hg hP).of_eq hm.generators⟩
        have hsusp : vm₁.suspended = c.vm.suspended := hm.kept.suspended
        have hhost : ({ c with vm := vm₁, active := [] } : Config).host = c.host := by
          simp only [Config.host, hsusp]
        rw [hhost]
        exact hidle.restored (.of_eq hm.callsstack hm.nnativecalls hm.stackbase hm.etraps)
  | sqCall params retval =>
    obtain ⟨vm, hm, rfl⟩ := return_api hs trivial
    exact hdone vm hm
  | sqResume retval =>
    obtain ⟨vm, hm, rfl⟩ := return_api hs trivial
    exact hdone vm hm
  | sqWakeup retval =>
    obtain ⟨vm, hm, rfl⟩ := return_api hs trivial
    exact hdone vm hm

theorem Good.cont (h : Good P c) (hactive : c.active = a :: rest)
    (hs : c.cont a rest = some c') : Good P c' := by
  unfold Config.cont at hs
  split at hs
  · cases hs
    exact h
  · cases hs
    exact h
  · rename_i hpc
    cases hs
    cases h.nested with
    | host hnil => rw [hnil] at hactive; cases hactive
    | runs a' rest' hact hruns hbelow =>
      obtain ⟨rfl, rfl⟩ := List.cons.inj (hact.symm.trans hactive)
      cases hruns with
      | script hent => simp [Activation.entered, hpc] at hent
      | native _ hloop => rw [hpc] at hloop; cases hloop
      | failed _ _ hcs hsnap hnn =>
        have hnn' : c.vm.nnativecalls - 1 = a'.entry.nnativecalls := by
          have : c.vm.nnativecalls = a'.entry.nnativecalls + 1 := hnn
          omega
        refine ⟨.back _ _ false .null false rfl rfl hcs hnn' (fun hP => ?_)
          (fun hok => by cases hok) hbelow,
          h.generators⟩
        change { c.vm.snapshot with nnativecalls := c.vm.nnativecalls - 1 } = a'.entry
        rw [hsnap hP, hnn']
    | back a' rest' ok res susp hact hdone =>
      obtain ⟨rfl, rfl⟩ := List.cons.inj (hact.symm.trans hactive)
      rw [hpc] at hdone; cases hdone
    | suspended a' res hact hdone =>
      obtain ⟨rfl, rfl⟩ := List.cons.inj (hact.symm.trans hactive)
      rw [hpc] at hdone; cases hdone
  · rename_i ok res suspend hpc
    cases h.nested with
    | host hnil => rw [hnil] at hactive; cases hactive
    | runs a' rest' hact hruns hbelow =>
      obtain ⟨rfl, rfl⟩ := List.cons.inj (hact.symm.trans hactive)
      cases hruns with
      | script hent => simp [Activation.entered, hpc] at hent
      | native _ hloop => rw [hpc] at hloop; cases hloop
      | failed _ hfailed => rw [hpc] at hfailed; cases hfailed
    | back a' rest' ok' res' susp' hact hdone hcs hnn hent hsusp hbelow =>
      obtain ⟨rfl, rfl⟩ := List.cons.inj (hact.symm.trans hactive)
      rw [hpc] at hdone
      cases hdone
      have hback : Back P c a' rest' suspend :=
        ⟨hcs, hnn, hent, fun h => (hsusp h).2, hbelow, h.generators⟩
      exact hback.return_ hs
    | suspended a' res' hact hdone hsusp hl hidle =>
      obtain ⟨rfl, rfl⟩ := List.cons.inj (hact.symm.trans hactive)
      rw [hpc] at hdone
      cases hdone
      exact hidle.return_ h.generators hl hs

/-- The frame of a native function. -/
theorem Nested.nativeFrame (hn : Nested P c) (hactive : c.active = a :: rest)
    (hkind : a.kind = .native) (hpc : a.pc = .loop) :
    Native P c.vm.snapshot a.entry ∧ c.vm.nnativecalls = a.entry.nnativecalls + 1 ∧
      Below P c.host a rest := by
  cases hn with
  | host hnil => rw [hnil] at hactive; cases hactive
  | runs a' rest' hact hruns hbelow =>
    obtain ⟨rfl, rfl⟩ := List.cons.inj (hact.symm.trans hactive)
    cases hruns with
    | script hent => simp [Activation.entered, hkind] at hent
    | native _ _ hnative hnn => exact ⟨hnative, hnn, hbelow⟩
    | failed hexec => rw [hexec] at hkind; cases hkind
  | back a' rest' ok res susp hact hdone =>
    obtain ⟨rfl, rfl⟩ := List.cons.inj (hact.symm.trans hactive)
    rw [hpc] at hdone; cases hdone
  | suspended a' res hact hdone =>
    obtain ⟨rfl, rfl⟩ := List.cons.inj (hact.symm.trans hactive)
    rw [hpc] at hdone; cases hdone

/-- The native function returns, or suspends the VM. -/
theorem Good.nativeRet {r : NativeResult} (h : Good P c) (hactive : c.active = a :: rest)
    (hkind : a.kind = .native) (hpc : a.pc = .loop) (hs : c.nativeRet a rest r = some c') :
    Good P c' := by
  obtain ⟨hnative, hnn, hbelow⟩ := h.nested.nativeFrame hactive hkind hpc
  obtain ⟨f, fs, hcs, -, habove⟩ := hnative.frame
  -- the frame is left in each case
  have hback : ∀ (vm : SQVM) (ok suspend : Bool) (res : SQObject),
      ({ c.vm with nnativecalls := c.vm.nnativecalls - 1 } : SQVM).leaveFrame = some vm →
      (suspend = true → ok = true ∧ Config.canSuspend c.vm = true) →
      Good P { c with vm := vm, active := { a with pc := .done ok res suspend } :: rest } := by
    intro vm ok suspend res hleave hsusp
    have hcs₁ : ({ c.vm with nnativecalls := c.vm.nnativecalls - 1 } : SQVM).callsstack =
        f :: fs := hcs
    obtain ⟨hsnap, hgens, hk⟩ := SQVM.leaveFrame_spec hcs₁ hleave
    have hnn₁ : vm.nnativecalls = c.vm.nnativecalls - 1 := congrArg Snapshot.nnativecalls hsnap
    have hnn₂ : vm.nnativecalls = a.entry.nnativecalls := by
      rw [hnn₁, hnn]
      rfl
    have hsusp₁ : vm.suspended = c.vm.suspended := hk.suspended
    have hhost : ({ c with vm := vm, active :=
        { a with pc := .done ok res suspend } :: rest } : Config).host = c.host := by
      simp only [Config.host, hsusp₁]
    have hcs₂ : vm.callsstack = fs := congrArg Snapshot.callsstack hsnap
    refine ⟨.back _ _ ok res suspend rfl rfl ((Above.of_eq hcs₂).trans habove) hnn₂
      (fun hP => ?_) (fun hs => ?_) (hhost ▸ hbelow), fun hP => (h.generators hP).of_eq hgens⟩
    · obtain ⟨e, hbody, htraps⟩ := hnative.places hP
      obtain ⟨rfl, rfl⟩ := List.cons.inj (hcs.symm.trans hbody.callsstack)
      have hexit := hbody.exit (fun _ => htraps) hP
      change vm.snapshot = a.entry
      have hleft : ({ c.vm with nnativecalls := c.vm.nnativecalls - 1 } : SQVM).snapshot.leave f
          a.entry.callsstack = { c.vm.snapshot.leave f a.entry.callsstack with
            nnativecalls := c.vm.nnativecalls - 1 } := rfl
      rw [hsnap, hleft, hexit, hnn]
      rfl
    · obtain ⟨hok, hcan⟩ := hsusp hs
      simp only [Config.canSuspend, decide_eq_true_eq, Bool.not_eq_true'] at hcan
      refine ⟨hok, ?_, hsusp₁.trans hcan.1⟩
      change vm.nnativecalls = 1
      omega
  unfold Config.nativeRet at hs
  cases r with
  | suspend =>
    simp only at hs
    split_ifs at hs with hfails
    · obtain ⟨vm, hleave, rfl⟩ := Option.map_eq_some_iff.mp hs
      have hcan : Config.canSuspend c.vm = false := by simpa using hfails
      exact hback vm _ _ _ hleave (fun hs => by rw [hcan] at hs; cases hs)
    · obtain ⟨retval, _, hs⟩ := Option.bind_eq_some_iff.mp hs
      obtain ⟨vm, hleave, rfl⟩ := Option.map_eq_some_iff.mp hs
      exact hback vm _ _ _ hleave fun hcan => ⟨rfl, hcan⟩
  | fail =>
    obtain ⟨vm, hleave, rfl⟩ := Option.map_eq_some_iff.mp hs
    exact hback vm _ _ _ hleave (Bool.noConfusion ·)
  | zero =>
    simp only [Bool.false_eq_true, if_false, Option.bind_some] at hs
    obtain ⟨vm, hleave, rfl⟩ := Option.map_eq_some_iff.mp hs
    exact hback vm _ _ _ hleave (Bool.noConfusion ·)
  | value =>
    simp only [Bool.false_eq_true, if_false] at hs
    obtain ⟨retval, _, hs⟩ := Option.bind_eq_some_iff.mp hs
    obtain ⟨vm, hleave, rfl⟩ := Option.map_eq_some_iff.mp hs
    exact hback vm _ _ _ hleave (Bool.noConfusion ·)

/-- The topmost C++ code that can call the API. -/
theorem linked_api (hin : c.inNative = true) :
    ∀ e es, c.active = e :: es → e.kind = .native ∧ e.pc = .loop := by
  intro e es hact
  simp only [Config.inNative, hact] at hin
  split at hin
  · rename_i hkind hpc
    exact ⟨hkind, hpc⟩
  · cases hin

theorem canReenter_of_inNative (hin : c.inNative = true) : c.canReenter = true := by
  unfold Config.canReenter
  split
  · rfl
  · rename_i e es hact
    rw [(linked_api hin e es hact).2]

/-- C++ code works on its own part of the stack. -/
theorem Good.moved (h : Good P c) (hin : c.inNative = true) (hm : Moved c.vm vm) :
    Good P { c with vm := vm } :=
  ⟨h.nested.native hin hm.restored hm.kept,
    fun hP => (h.generators hP).of_eq hm.generators⟩

/-- The API makes a call. -/
theorem Good.calling (h : Good P c) (hin : c.inNative = true) (hm : Moved c.vm vm) {k : Cont}
    (hk : k.OfApi) : Calling P c vm k vm.snapshot where
  snapshot := rfl
  host := by rw [hm.kept.suspended]; rfl
  waits := by
    have hbefore : k.before vm.snapshot = vm.snapshot := by
      cases k with
      | sqCall params retval => rfl
      | sqResume retval => rfl
      | sqWakeup retval => rfl
      | opCall arg0 => cases hk
      | opConstruct => cases hk
      | reenter nparams metamethod arg0 => cases hk
    rw [hbefore]
    exact h.nested.waits (canReenter_of_inNative hin) hm.restored (.inl hin)
  linked := by
    cases k with
    | sqCall params retval => exact linked_api hin
    | sqResume retval => exact linked_api hin
    | sqWakeup retval => exact linked_api hin
    | opCall arg0 => cases hk
    | opConstruct => cases hk
    | reenter nparams metamethod arg0 => cases hk

/-- `sq_resume` of a suspended generator. -/
theorem Good.sqResume {retval : Bool} (h : Good P c) (hin : c.inNative = true)
    (hr : KeepsRoots c (.api (.resume retval))) (hs : c.sqResume retval = some c') :
    Good P c' := by
  unfold Config.sqResume at hs
  obtain ⟨o, ho, hs⟩ := Option.bind_eq_some_iff.mp hs
  replace hr := hr.2
  simp only [ho] at hr
  split at hs
  · rename_i g
    obtain ⟨vm, hpush, hs⟩ := Option.bind_eq_some_iff.mp hs
    have hm := moved_push hpush
    have hcalling : Calling P c vm (.sqResume retval) vm.snapshot := h.calling hin hm trivial
    have hgens : P → vm.GeneratorsOk := fun hP => (h.generators hP).of_eq hm.generators
    simp only at hs
    split_ifs at hs with hnn
    · cases hs
      exact ⟨hcalling.refused (SQVM.stored_raiseError vm _).stays.toKept rfl, hgens⟩
    · obtain ⟨⟨vm₁, ok⟩, hres, hs⟩ := Option.bind_eq_some_iff.mp hs
      obtain ⟨hresumed, hgens₁⟩ := SQVM.resume_spec hres
      obtain ⟨gen₀, hgen₀, hstate, hroom⟩ := hr (by rw [← hm.nnativecalls]; omega) g rfl
      have hgens' : P → vm₁.GeneratorsOk := fun hP => hgens₁ (hgens hP)
      have hgen₁ : vm.generators[g]? = some gen₀ := hm.generators ▸ hgen₀
      cases hresumed with
      | refused _ _ hrefused =>
        refine (hrefused ?_).elim
        rw [hgen₁]
        exact congrArg some hstate
      | leaked f gen hgen hsusp _ _ _ hfull =>
        obtain ⟨vm₂, hst, rfl⟩ := SQVM.push_spec hpush
        obtain rfl : gen₀ = gen := Option.some.inj (hgen₁.symm.trans hgen)
        have hlen := hst.length_eq
        have hmeta := hst.stays.nmetamethodscall
        simp only [SQVM.HasRoom] at hfull hroom
        omega
      | entered f gen vm₂ hgen hsusp _ he hroot htraps hs₁ hk₁ =>
        have hcs₁ : vm₁.callsstack = f :: vm.callsstack :=
          (congrArg Snapshot.callsstack hs₁).trans (congrArg Snapshot.callsstack he.snapshot)
        simp only [hcs₁, List.cons_ne_nil, if_false] at hs
        cases hs
        have hremembers : vm.snapshot.Remembers f vm.top :=
          ⟨he.remembers.prevstkbase, he.remembers.prevtop⟩
        refine ⟨hcalling.runs ((kept_counted he.kept).trans (hk₁.trans ⟨rfl, rfl, rfl⟩))
          (.script rfl ⟨[], { f with root := true }, body_first (vm.top + gen.stack.length)
            (vm.nnativecalls + 1) (gen.etraps.take gen.ci.etraps).reverse hremembers ?_ rfl rfl fun hP => ?_, rfl⟩
            ?_), hgens'⟩
        · have hci : (vm₁.setCi fun ci => { ci with root := true }).snapshot =
              { vm₁.snapshot with
                callsstack := vm₁.callsstack.modifyHead fun ci => { ci with root := true } } := rfl
          have htraps₂ : vm₂.etraps = vm.etraps := congrArg Snapshot.etraps he.snapshot
          rw [hci, hcs₁, hs₁, he.snapshot, htraps₂]
          rfl
        · have hle := hgens hP gen (List.mem_of_getElem? hgen) hsusp
          rw [List.length_reverse, List.length_take]
          change min gen.ci.etraps gen.etraps.length = f.etraps
          omega
        · exact (congrArg Snapshot.nnativecalls hs₁).trans
            (congrArg Snapshot.nnativecalls he.snapshot)
  · cases hs
    exact h

/-- The suspended invocation goes on as a new one. -/
theorem Idle.wakeup (hidle : Idle P c.host c.vm.snapshot) (hsusp : c.vm.suspended = true)
    (hnil : c.active = []) {pc : Pc} (hpc : pc = .loop ∨ ∃ err last_top, pc = .trap err last_top)
    {traps : ℤ} {retval : Bool} {ci : CallInfo} {fs : List CallInfo}
    (hcs : c.vm.callsstack = ci :: fs) (hroot : c.vm.suspendedRoot = ci.root)
    (hcs' : vm.callsstack = { ci with root := c.vm.suspendedRoot } :: fs)
    (hnn : vm.nnativecalls = 1) (hrun : vm.suspended = false)
    (hbase : vm.stackbase = c.vm.stackbase) (htraps : vm.etraps = c.vm.etraps) :
    Nested P (c.enter vm .execute pc traps (.sqWakeup retval) none c.suspendedEntry) := by
  obtain ⟨hscript, hentry, hcount⟩ := hidle.suspended hsusp
  have hscript' : Script P vm.snapshot c.suspendedEntry :=
    hscript.setTop { ci with root := c.vm.suspendedRoot } hcs hcs' hroot rfl rfl
      (fun _ => hbase) fun _ traps below htr _ => ⟨traps, htraps.trans htr, rfl⟩
  have hidle' : Idle P ⟨vm.suspended, c.suspendedEntry⟩ c.suspendedEntry :=
    ⟨hcount, fun _ => hentry, fun h => by rw [show vm.suspended = false from hrun] at h; cases h⟩
  have hcount' : vm.nnativecalls = c.suspendedEntry.nnativecalls + 1 :=
    hnn.trans (congrArg (· + 1) hcount.symm)
  refine .runs _ _ rfl (.script ?_ hscript' hcount') ?_
  · rcases hpc with rfl | ⟨err, last_top, rfl⟩
    · rfl
    · rfl
  · rw [hnil]
    refine ⟨?_, hidle'⟩
    intro e es h
    cases h

/-- `sq_wakeupvm` with nothing running on the VM. -/
theorem Good.sqWakeupvm {wakeupret retval throwerror : Bool} (h : Good P c)
    (hr : c.vm.suspended = true →
      c.active = [] ∧ c.vm.callsstack.head?.map (·.root) = some c.vm.suspendedRoot)
    (hs : c.sqWakeupvm wakeupret retval throwerror = some c') : Good P c' := by
  unfold Config.sqWakeupvm at hs
  split at hs
  · cases hs
    exact h
  · rename_i hsusp
    have hsusp : c.vm.suspended = true := by simpa using hsusp
    obtain ⟨hnil, hroot⟩ := hr hsusp
    have hidle : Idle P c.host c.vm.snapshot := by
      cases h.nested with
      | host _ hidle => exact hidle
      | runs a rest hact => rw [hnil] at hact; cases hact
      | back a rest ok res susp hact => rw [hnil] at hact; cases hact
      | suspended a res hact => rw [hnil] at hact; cases hact
    obtain ⟨hscript, -⟩ := hidle.suspended hsusp
    obtain ⟨vm, hput, hs⟩ := Option.bind_eq_some_iff.mp hs
    -- the value for the register of the call
    have hset : ∀ (vm vm' : SQVM) (o : SQObject),
        (if c.vm.suspendedTarget ≠ -1 then vm.setStk c.vm.suspendedTarget o else some vm) =
          some vm' → SQVM.Stored vm vm' := by
      intro vm vm' o h
      split_ifs at h
      · exact SQVM.stored_setSlot h
      · exact Option.some.inj h ▸ .refl vm
    have hm : Moved c.vm vm := by
      split at hput
      · obtain ⟨ret, _, hput⟩ := Option.bind_eq_some_iff.mp hput
        obtain ⟨vm₁, h₁, hpop⟩ := Option.bind_eq_some_iff.mp hput
        exact (moved_store (hset _ _ _ h₁)).trans (moved_pop hpop)
      · exact moved_store (hset _ _ _ hput)
    have hnn : vm.nnativecalls = 0 := hm.nnativecalls.trans hidle.nnativecalls
    obtain ⟨ci, fs, hcs⟩ := hscript.exists_head
    have hcs₁ : vm.callsstack = ci :: fs := hm.callsstack.trans hcs
    rw [show c.vm.callsstack = ci :: fs from hcs] at hroot
    simp only [hnn, hcs₁, List.cons_ne_nil, if_false,
      if_neg (show ¬ 0 + 1 > MAX_NATIVE_CALLS by decide)] at hs
    cases hs
    have hcs' : ({ ci with root := vm.suspendedRoot } : CallInfo) :: fs =
        { ci with root := c.vm.suspendedRoot } :: fs := by rw [hm.kept.suspendedRoot]
    refine ⟨hidle.wakeup hsusp hnil ?_ hcs (Option.some.inj hroot).symm hcs' rfl rfl
      hm.stackbase hm.etraps,
      fun hP => (h.generators hP).of_eq hm.generators⟩
    cases throwerror with
    | true => exact .inr ⟨_, _, rfl⟩
    | false => exact .inl rfl

theorem Good.api {x : Api} (h : Good P c) (hin : c.inNative = true)
    (hr : KeepsRoots c (.api x)) (hp : P → KeepsPlaces c (.api x)) (hs : c.api x = some c') : Good P c' := by
  cases x with
  | push o =>
    obtain ⟨vm, hpush, rfl⟩ := Option.map_eq_some_iff.mp hs
    exact h.moved hin (moved_push hpush)
  | pop n =>
    simp only [Config.api] at hs
    split_ifs at hs
    · obtain ⟨vm, hpop, rfl⟩ := Option.map_eq_some_iff.mp hs
      exact h.moved hin (moved_pop hpop)
    · cases hs
      exact h
  | set i o =>
    simp only [Config.api] at hs
    split_ifs at hs
    · obtain ⟨vm, hset, rfl⟩ := Option.map_eq_some_iff.mp hs
      exact h.moved hin (moved_store (SQVM.stored_setSlot hset))
    · cases hs
      exact h
  | reservestack nsize =>
    cases hs
    unfold SQVM.reservestack
    split_ifs
    · exact h.moved hin (moved_store (SQVM.stored_raiseError _ _))
    · exact ⟨h.nested.native hin (.of_eq rfl rfl rfl rfl) ⟨rfl, rfl, rfl⟩, h.generators⟩
    · exact h
  | call params retval =>
    simp only [Config.api] at hs
    split_ifs at hs
    · obtain ⟨closure, hclosure, hs⟩ := Option.bind_eq_some_iff.mp hs
      have hcalling : Calling P c c.vm (.sqCall params retval) c.vm.snapshot :=
        h.calling hin (moved_store (.refl _)) trivial
      obtain ⟨hn, hg⟩ := hcalling.call (hr.1 closure hclosure)
        (fun hP => (hp hP).1 closure hclosure) hs
      exact ⟨hn, fun hP => hg (h.generators hP)⟩
    · cases hs
      exact h
  | resume retval =>
    simp only [Config.api] at hs
    split_ifs at hs
    · exact h.sqResume hin hr hs
    · cases hs
      exact h
  | wakeupvm wakeupret retval throwerror =>
    simp only [Config.api] at hs
    split_ifs at hs
    · exact h.sqWakeupvm hr.2 hs
    · cases hs
      exact h

/-- Only an `Execute` catches exceptions. -/
theorem Nested.execute_of_trap (hn : Nested P c) (hactive : c.active = a :: rest)
    {err : SQObject} {last_top : ℤ} (hpc : a.pc = .trap err last_top) : a.kind = .execute := by
  cases hn with
  | host hnil => rw [hnil] at hactive; cases hactive
  | runs a' rest' hact hruns =>
    obtain ⟨rfl, rfl⟩ := List.cons.inj (hact.symm.trans hactive)
    cases hruns with
    | script hent =>
      unfold Activation.entered at hent
      split at hent
      · assumption
      · assumption
      · cases hent
    | native _ hloop => rw [hpc] at hloop; cases hloop
    | failed hkind => exact hkind
  | back a' rest' ok res susp hact hdone =>
    obtain ⟨rfl, rfl⟩ := List.cons.inj (hact.symm.trans hactive)
    rw [hpc] at hdone; cases hdone
  | suspended a' res hact hdone =>
    obtain ⟨rfl, rfl⟩ := List.cons.inj (hact.symm.trans hactive)
    rw [hpc] at hdone; cases hdone

/-- Another VM yields or resumes a generator. -/
theorem GeneratorsOk.foreign {gen : SQGenerator} (h : vm.GeneratorsOk)
    (hgen : ¬ gen.etraps.length < gen.ci.etraps) (gens : List SQGenerator)
    (hmem : ∀ gen' ∈ gens, gen' ∈ vm.generators ∨ gen' = gen) :
    ({ vm with generators := gens } : SQVM).GeneratorsOk := by
  intro gen' hgen' hsusp
  rcases hmem gen' hgen' with hmem | rfl
  · exact h gen' hmem hsusp
  · omega

/-- One step keeps the nesting. -/
theorem Good.step {e : Event} (h : Good P c) (hr : KeepsRoots c e) (hp : P → KeepsPlaces c e)
    (hs : c.step e = some c') : Good P c' := by
  unfold Config.step at hs
  split at hs
  · rename_i i
    split at hs
    · rename_i a rest hact
      split at hs
      · rename_i hkind hpc
        exact (h.nested.executes hact hkind (.inl hpc)).instr hpc h.generators hr hp hs
      · cases hs
        exact h
    · cases hs
      exact h
  · split_ifs at hs with hin
    · exact h.api hin hr hp hs
    · cases hs
      exact h
  · split at hs
    · rename_i a rest hact
      split at hs
      · rename_i hkind hpc
        exact h.nativeRet hact hkind hpc hs
      · cases hs
        exact h
    · cases hs
      exact h
  · split_ifs at hs with hre
    · obtain ⟨hn, hg⟩ := reenter_nested rfl
        (h.nested.waits hre (.of_eq rfl rfl rfl rfl) (.inr rfl)) (by exact trivial) hr.1
        (fun hP => (hp hP).1) hs
      exact ⟨hn, fun hP => hg (h.generators hP)⟩
    · cases hs
      exact h
  · split at hs
    · rename_i a rest hact
      exact h.cont hact hs
    · cases hs
      exact h
  · split at hs
    · rename_i a rest hact
      split at hs
      · rename_i err last_top hpc
        exact (h.nested.executes hact (h.nested.execute_of_trap hact hpc)
          (.inr ⟨err, last_top, hpc⟩)).unwind h.generators hp hs
      · cases hs
        exact h
    · cases hs
      exact h
  · cases hs
    exact ⟨h.nested.sameSnapshot rfl ⟨rfl, rfl, rfl⟩, h.generators⟩
  · rename_i g gen
    split_ifs at hs with hskip hlt
    · cases hs
      exact h
    · cases hs
      refine ⟨h.nested.sameSnapshot rfl ⟨rfl, rfl, rfl⟩, fun hP =>
        GeneratorsOk.foreign (h.generators hP) (fun hlt => hskip (.inr hlt)) _ fun gen' hmem => ?_⟩
      exact List.mem_or_eq_of_mem_set hmem
    · cases hs
      refine ⟨h.nested.sameSnapshot rfl ⟨rfl, rfl, rfl⟩, fun hP =>
        GeneratorsOk.foreign (h.generators hP) (fun hlt => hskip (.inr hlt)) _ fun gen' hmem => ?_⟩
      simpa using hmem

theorem good_init (P : Prop) (stacksize : ℕ) (callstackdata : ℕ → ℕ) (heap : Heap) :
    Good P (Config.init stacksize callstackdata heap) where
  nested := .host rfl ⟨rfl, fun _ => .refl _, nofun⟩
  generators _ := nofun

end Squirt.Machine
