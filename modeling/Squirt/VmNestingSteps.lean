import Squirt.VmNesting

/-!
# One step keeps the nesting

The steps that would break it are named by two conditions: `KeepsRoots` for the frames and
their `_root` flags, `KeepsPlaces` for the bases, the tops and the traps.
-/

namespace Squirt.Machine

open SQVM (HasRoom NativeFits accepts)

/-- A condition on a call of a closure. -/
abbrev CallCondition := Config → SQVM → SQObject → ℕ → ℤ → Prop

/-- A generator function that `SQVM::Call` starts is seen to leave no frame: there is no
caller on the call stack, or the call stack stays in its block. -/
def ClosureStays : CallCondition := fun c vm closure nparams stackbase =>
  match closure with
  | .closure r =>
    let func := (c.heap.closure r).function
    vm.nnativecalls + 1 ≤ MAX_NATIVE_CALLS → accepts func nparams = true →
      vm.HasRoom (stackbase + func.stacksize) → func.bgenerator = true →
      vm.callsstack ≠ [] → vm.nextBlock = vm.block
  | _ => True

/-- A closure whose arguments are in order gets its frame. -/
def ClosureFits : CallCondition := fun c vm closure nparams stackbase =>
  match closure with
  | .closure r =>
    let func := (c.heap.closure r).function
    vm.nnativecalls + 1 ≤ MAX_NATIVE_CALLS → accepts func nparams = true →
      vm.HasRoom (stackbase + func.stacksize)
  | .nativeclosure r => vm.NativeFits (c.heap.nativeclosure r) nparams stackbase
  | _ => True

/-- `SQVM::Call` meets the condition for a closure or for the constructor of a class. -/
def CallMeets (G : CallCondition) (c : Config) (vm : SQVM) (closure : SQObject)
    (nparams : ℕ) (stackbase : ℤ) : Prop :=
  match closure with
  | .clazz r => ∀ vm', vm.createInstance.1.setSlot stackbase vm.createInstance.2 = some vm' →
      G c vm' (c.heap.constructor r) nparams stackbase
  | _ => G c vm closure nparams stackbase

/-- A call out of C++ code meets the condition. -/
def ReenterMeets (G : CallCondition) (c : Config) (vm : SQVM) (closure : SQObject)
    (args : List SQObject) (metamethod : Bool) : Prop :=
  ∀ vm₁, vm.pushAll args = some vm₁ →
    let vm₁ := if metamethod then { vm₁ with nmetamethodscall := vm₁.nmetamethodscall + 1 }
      else vm₁
    CallMeets G c vm₁ closure args.length (vm₁.top - args.length)

/-- The `_call` metamethod of the object in register `arg1` meets the condition. -/
def MetacallMeets (G : CallCondition) (c : Config) (arg1 arg2 arg3 : ℕ) : Prop :=
  ∀ type r args, c.vm.stk arg1 = some (.delegable type r) →
    c.vm.slots (c.vm.stackbase + arg2) arg3 = some args →
    ReenterMeets G c c.vm (c.heap.metacall r) (.delegable type r :: args) true

/-- The call an event makes meets the condition. -/
def CallsMeet (G : CallCondition) (c : Config) : Event → Prop
  | .instr (.call _ arg1 arg2 arg3) | .instr (.tailcall _ arg1 arg2 arg3) =>
    MetacallMeets G c arg1 arg2 arg3
  | .reenter closure args metamethod => ReenterMeets G c c.vm closure args metamethod
  | .api (.call params _) => ∀ closure, c.vm.slot (c.vm.top - (params + 1)) = some closure →
      CallMeets G c c.vm closure params (c.vm.top - params)
  | _ => True

/-- The generator in `o`, when its frame comes back, is not one that yielded out of a frame
the host had resumed. -/
def NotRoot (c : Config) (o : Option SQObject) : Prop :=
  ∀ g gen, o = some (.generator g) → c.vm.generators[g]? = some gen →
    gen.state = .suspended → c.vm.HasRoom (c.vm.top + gen.stack.length) → gen.ci.root = false

/-- `Resume` of the generator in `o` succeeds. -/
def Resumes (vm : SQVM) (o : Option SQObject) : Prop :=
  ∀ g, o = some (.generator g) → ∃ gen, vm.generators[g]? = some gen ∧
    gen.state = .suspended ∧ vm.HasRoom (vm.top + gen.stack.length)

/-- The steps that keep the `_root` flags in order: a generator is made by `SQVM::Call`
without the call stack moving, a generator the host has resumed is not resumed by a
script, `sq_resume` gets a generator that resumes, and `sq_wakeupvm` is called when nothing
runs on the VM and the frame that was suspended is the current one. -/
def KeepsRoots (c : Config) (e : Event) : Prop :=
  CallsMeet ClosureStays c e ∧
  match e with
  | .instr (.resume _ arg1) => NotRoot c (c.vm.stk arg1)
  | .instr (.foreach arg0 _) => NotRoot c (c.vm.stk arg0)
  | .api (.resume _) => c.vm.nnativecalls + 1 ≤ MAX_NATIVE_CALLS →
      Resumes { c.vm with top := c.vm.top + 1 } (c.vm.slot (c.vm.top - 1))
  | .api (.wakeupvm _ _ _) => c.vm.suspended = true →
      c.active = [] ∧ c.vm.callsstack.head?.map (·.root) = some c.vm.suspendedRoot
  | _ => True

/-- The steps that keep the places of the frames: a call from C++ code does not lose its
frame when the stack cannot grow, compiled code returns from a frame without open traps
and pops no more traps than the frame has, and an exception is caught by a trap that was
set where the frame is now. -/
def KeepsPlaces (c : Config) (e : Event) : Prop :=
  CallsMeet ClosureFits c e ∧
  match e with
  | .instr (.ret _ _) => ∀ ci, c.vm.callsstack.head? = some ci → ci.etraps = 0
  | .instr (.popTrap n) => ∀ ci, c.vm.callsstack.head? = some ci → n ≤ ci.etraps
  | .unwind => ∀ ci et, c.vm.callsstack.head? = some ci → 0 < ci.etraps →
      c.vm.etraps.head? = some et → et.stackbase = c.vm.stackbase
  | _ => True

variable {P : Prop} {c c' : Config} {a : Activation} {rest : List Activation} {vm vm' : SQVM}

/-- The same invocation suspended or not. -/
theorem host_eq (h : SQVM.Kept c.vm vm) (active : List Activation) (heap : Heap) :
    Config.host { c with vm := vm, active := active, heap := heap } = c.host := by
  simp only [Config.host, h.suspended]

section Calls

variable {closure : SQObject} {r nparams : ℕ} {stackbase : ℤ} {k : Cont}
  {inst : Option SQObject} {entry : Snapshot}

/-- A call is made in a state in which its caller waits for it. -/
structure Calling (P : Prop) (c : Config) (vm : SQVM) (k : Cont) (entry : Snapshot) :
    Prop where
  snapshot : vm.snapshot = entry
  host : (⟨vm.suspended, c.suspendedEntry⟩ : Host) = c.host
  waits : Waits P c.host (k.before entry) c.active
  linked : Linked k c.active

theorem Calling.store (h : Calling P c vm k entry) (hs : SQVM.Stored vm vm') :
    Calling P c vm' k entry where
  snapshot := hs.snapshot.trans h.snapshot
  host := by rw [hs.stays.suspended, h.host]
  waits := h.waits
  linked := h.linked

/-- The call has started an invocation that runs. -/
theorem Calling.runs (h : Calling P c vm k entry) {kind : Kind} {pc : Pc} {traps : ℤ}
    (hk : SQVM.Kept vm vm')
    (hr : Runs P vm'.snapshot { kind, pc, traps, cont := k, inst, entry }) :
    Nested P (c.enter vm' kind pc traps k inst entry) := by
  have hhost : (c.enter vm' kind pc traps k inst entry).host = c.host := by
    rw [← h.host, ← hk.suspended]
    rfl
  exact .runs _ _ rfl hr ⟨h.linked, hhost ▸ h.waits⟩

/-- The call has returned at once. -/
theorem Calling.back (h : Calling P c vm k entry) {kind : Kind} {ok : Bool}
    {res : SQObject} (hk : SQVM.Kept vm vm') (hcs : Above vm'.callsstack vm.callsstack)
    (hnn : vm'.nnativecalls = vm.nnativecalls) (hs : P → vm'.snapshot = vm.snapshot) :
    Nested P (c.enter vm' kind (.done ok res false) 0 k inst entry) := by
  have hhost : (c.enter vm' kind (.done ok res false) 0 k inst entry).host = c.host := by
    rw [← h.host, ← hk.suspended]
    rfl
  have hentry := h.snapshot
  exact .back _ _ ok res false rfl rfl
    (hcs.trans (.of_eq (congrArg Snapshot.callsstack hentry)))
    (hnn.trans (congrArg Snapshot.nnativecalls hentry)) (fun hP => (hs hP).trans hentry) nofun
    ⟨h.linked, hhost ▸ h.waits⟩

/-- The call has returned at once and done nothing to the frames. -/
theorem Calling.refused (h : Calling P c vm k entry) {kind : Kind} {ok : Bool}
    {res : SQObject} (hk : SQVM.Kept vm vm') (hs : vm'.snapshot = vm.snapshot) :
    Nested P (c.enter vm' kind (.done ok res false) 0 k inst entry) :=
  h.back hk (.of_eq (congrArg Snapshot.callsstack hs)) (congrArg Snapshot.nnativecalls hs)
    fun _ => hs

/-- `_nnativecalls` counts besides. -/
theorem kept_counted {n : ℕ} (h : SQVM.Kept { vm with nnativecalls := n } vm') :
    SQVM.Kept vm vm' :=
  ⟨h.suspended, h.suspendedRoot, h.nmetamethodscall⟩

theorem nextBlock_counted (vm : SQVM) (n : ℕ) :
    ({ vm with nnativecalls := n } : SQVM).nextBlock = vm.nextBlock := by
  simp only [SQVM.nextBlock, SQVM.growCallStack]
  split_ifs <;> rfl

theorem ciPtr_cons {ci : CallInfo} {fs : List CallInfo} (h : vm.callsstack = ci :: fs) :
    vm.ciPtr = some (vm.block, fs.length) := by
  simp only [SQVM.ciPtr, h, SQVM.block]

theorem ciPtr_nil (h : vm.callsstack = []) : vm.ciPtr = none := by
  simp only [SQVM.ciPtr, h]

/-- The first frame of an invocation. -/
theorem body_first {s entry : Snapshot} {e f : CallInfo} {newbase : ℤ} (newtop : ℤ) (n : ℕ)
    (traps : List SQExceptionTrap) (hr : entry.Remembers f newbase)
    (hs : s = { entry.enter e newbase newtop with
      nnativecalls := n, etraps := traps ++ entry.etraps })
    (hbase : e.prevstkbase = f.prevstkbase) (htop : e.prevtop = f.prevtop)
    (htraps : P → traps.length = e.etraps) : Body P s entry [] e where
  callsstack := by rw [hs]; rfl
  inner_root := nofun
  positions hP :=
    { stackbase := by
        rw [hs, hbase, hr.prevstkbase]
        simp [Snapshot.enter]
      prevtop := by rw [htop, hr.prevtop]
      etraps := ⟨traps, by rw [hs], by simp [htraps hP]⟩ }

theorem Calling.execute (h : Calling P c vm k entry)
    (hr : ClosureStays c vm (.closure r) nparams stackbase)
    (hp : P → ClosureFits c vm (.closure r) nparams stackbase)
    (he : c.execute vm r nparams stackbase k inst entry = some c') :
    Nested P c' ∧ (vm.GeneratorsOk → c'.vm.GeneratorsOk) := by
  unfold Config.execute at he
  split_ifs at he with hnn
  · cases he
    exact ⟨h.refused (SQVM.stored_raiseError vm _).stays.toKept rfl, id⟩
  · obtain ⟨⟨vm₁, ok⟩, hstart, he⟩ := Option.bind_eq_some_iff.mp he
    obtain ⟨hstarted, hgen⟩ := SQVM.startCall_spec hstart
    obtain rfl := h.snapshot
    cases hstarted with
    | refused hs₁ hk₁ =>
      cases he
      refine ⟨h.runs (kept_counted hk₁.toKept) (.failed rfl rfl (.of_eq ?_) ?_ ?_), hgen⟩
      · rw [hs₁]
        rfl
      · intro _
        rw [hs₁]
        rfl
      · rw [hs₁]
        rfl
    | leaked f hent hroot _ hacc hroom =>
      cases he
      refine ⟨h.runs (kept_counted hent.kept) (.failed rfl rfl ?_ ?_ ?_), hgen⟩
      · rw [hent.snapshot]
        exact (Above.refl vm.callsstack).cons hroot
      · exact fun hP => (hroom (hp hP (by omega) hacc)).elim
      · rw [hent.snapshot]
        rfl
    | entered f hent hroot htraps hfunc =>
      have hcs₁ : vm₁.callsstack = f :: vm.callsstack :=
        congrArg Snapshot.callsstack hent.snapshot
      have hne : vm₁.ciPtr ≠ vm.ciPtr := by
        rw [ciPtr_cons hcs₁]
        cases hcs : vm.callsstack with
        | nil => simp [ciPtr_nil hcs]
        | cons ci fs => simp [ciPtr_cons hcs]
      simp only [Bool.not_true, Bool.false_eq_true, if_false, if_neg hne, hcs₁,
        List.cons_ne_nil] at he
      cases he
      refine ⟨h.runs ((kept_counted hent.kept).trans ⟨rfl, rfl, rfl⟩) (.script rfl ?_ ?_), hgen⟩
      · refine ⟨[], { f with root := true }, body_first
          (stackbase + (c.heap.closure r).function.stacksize) (vm.nnativecalls + 1) []
          ⟨hent.remembers.prevstkbase, hent.remembers.prevtop⟩ ?_ rfl rfl
          (fun _ => by simp [htraps]), rfl⟩
        have hci : (vm₁.setCi fun ci => { ci with root := true }).snapshot =
            { vm₁.snapshot with
              callsstack := vm₁.callsstack.modifyHead fun ci => { ci with root := true } } := rfl
        rw [hci, hcs₁, hent.snapshot]
        rfl
      · have hnn₁ : vm₁.nnativecalls = vm.nnativecalls + 1 :=
          congrArg Snapshot.nnativecalls hent.snapshot
        exact hnn₁
    | created hs₁ hk₁ hblock hfunc hacc hroom =>
      have hcs₁ : vm₁.callsstack = vm.callsstack := congrArg Snapshot.callsstack hs₁
      have heq : vm₁.ciPtr = vm.ciPtr := by
        cases hcs : vm.callsstack with
        | nil => rw [ciPtr_nil hcs, ciPtr_nil (hcs₁.trans hcs)]
        | cons ci fs =>
          have hb := hr (by omega) hacc hroom hfunc (by simp [hcs])
          rw [ciPtr_cons hcs, ciPtr_cons (hcs₁.trans hcs), hblock]
          rw [nextBlock_counted, hb]
      simp only [Bool.not_true, Bool.false_eq_true, if_false, if_pos heq] at he
      obtain ⟨res, _, rfl⟩ := Option.map_eq_some_iff.mp he
      refine ⟨h.refused ((kept_counted hk₁).trans ⟨rfl, rfl, rfl⟩) ?_, hgen⟩
      have hnn₁ : vm₁.nnativecalls = vm.nnativecalls + 1 := congrArg Snapshot.nnativecalls hs₁
      have hset : ({ vm₁ with nnativecalls := vm₁.nnativecalls - 1 } : SQVM).snapshot =
          { vm₁.snapshot with nnativecalls := vm₁.nnativecalls - 1 } := rfl
      rw [hset, hnn₁, hs₁]
      rfl

theorem Calling.callNative (h : Calling P c vm k entry)
    (hp : P → ClosureFits c vm (.nativeclosure r) nparams stackbase)
    (he : c.callNative vm r nparams stackbase k inst entry = some c') :
    Nested P c' ∧ (vm.GeneratorsOk → c'.vm.GeneratorsOk) := by
  obtain ⟨⟨vm₁, ok⟩, hstart, rfl⟩ := Option.map_eq_some_iff.mp he
  obtain ⟨hstarted, hgen, hrefused⟩ := SQVM.enterNative_spec hstart
  refine ⟨?_, fun hg => hg.of_eq hgen⟩
  cases hstarted with
  | refused hs₁ hk₁ => exact h.refused hk₁ hs₁
  | leaked f hent hroot _ =>
    refine h.back hent.kept ?_ (congrArg Snapshot.nnativecalls hent.snapshot)
      fun hP => hrefused rfl (hp hP)
    rw [show vm₁.callsstack = f :: vm.callsstack from congrArg Snapshot.callsstack hent.snapshot]
    exact (Above.refl _).cons hroot
  | entered f vm₂ hent hroot htraps hs₁ hk₁ =>
    have hs := h.snapshot
    refine h.runs (hent.kept.trans hk₁) (.native rfl rfl ⟨⟨f, entry.callsstack, ?_, hroot,
      .refl _⟩, fun _ => ⟨f, ?_, htraps⟩⟩ ?_)
    · rw [hs₁, hent.snapshot, hs]
      rfl
    · refine body_first
        (stackbase + nparams + (c.heap.nativeclosure r).outervalues.length)
        (vm.nnativecalls + 1) [] (hs ▸ hent.remembers) ?_ rfl rfl (fun _ => by simp [htraps])
      rw [hs₁, hent.snapshot, hs]
      rfl
    · rw [hs₁, ← hs]
      rfl

theorem Calling.callClosure (h : Calling P c vm k entry)
    (hr : ClosureStays c vm closure nparams stackbase)
    (hp : P → ClosureFits c vm closure nparams stackbase)
    (he : c.callClosure vm closure nparams stackbase k inst entry = some c') :
    Nested P c' ∧ (vm.GeneratorsOk → c'.vm.GeneratorsOk) := by
  cases closure with
  | closure r => exact h.execute hr hp he
  | nativeclosure r => exact h.callNative hp he
  | _ =>
    cases he
    exact ⟨h.refused ⟨rfl, rfl, rfl⟩ rfl, id⟩

theorem Calling.call (h : Calling P c vm k vm.snapshot)
    (hr : CallMeets ClosureStays c vm closure nparams stackbase)
    (hp : P → CallMeets ClosureFits c vm closure nparams stackbase)
    (he : c.call vm closure nparams stackbase k = some c') :
    Nested P c' ∧ (vm.GeneratorsOk → c'.vm.GeneratorsOk) := by
  unfold Config.call at he
  split at he
  · rename_i r
    have hst := SQVM.stored_createInstance vm
    simp only at he
    split at he
    · cases he
      exact ⟨h.refused hst.stays.toKept hst.snapshot, fun hg => hg.of_eq hst.generators⟩
    · obtain ⟨vm₁, hset, he⟩ := Option.bind_eq_some_iff.mp he
      have hst₁ := hst.trans (SQVM.stored_setSlot hset)
      obtain ⟨hn, hg⟩ := (h.store hst₁).callClosure (hr vm₁ hset) (fun hP => hp hP vm₁ hset) he
      exact ⟨hn, fun hg' => hg (hg'.of_eq hst₁.generators)⟩
  · rename_i hne
    have hmeets : ∀ G, CallMeets G c vm closure nparams stackbase →
        G c vm closure nparams stackbase := by
      intro G hG
      cases closure with
      | clazz r => exact (hne r rfl).elim
      | _ => exact hG
    exact h.callClosure (hmeets _ hr) (fun hP => hmeets _ (hp hP)) he

end Calls

/-- A call out of C++ code. -/
theorem reenter_nested {closure : SQObject} {args : List SQObject} {metamethod : Bool}
    {arg0 : Option (BitVec 8)}
    (hhost : (⟨vm.suspended, c.suspendedEntry⟩ : Host) = c.host)
    (hw : Waits P c.host vm.snapshot c.active)
    (hl : Linked (.reenter args.length metamethod arg0) c.active)
    (hr : ReenterMeets ClosureStays c vm closure args metamethod)
    (hp : P → ReenterMeets ClosureFits c vm closure args metamethod)
    (he : c.reenter vm closure args metamethod arg0 = some c') :
    Nested P c' ∧ (vm.GeneratorsOk → c'.vm.GeneratorsOk) := by
  obtain ⟨vm₁, hpush, he⟩ := Option.bind_eq_some_iff.mp he
  have hr₁ := hr vm₁ hpush
  have hp₁ := fun hP => hp hP vm₁ hpush
  obtain ⟨vm₂, hst, rfl⟩ := SQVM.pushAll_spec hpush
  have hs₂ := hst.snapshot
  have hgen := hst.generators
  -- the count of metamethod calls is not part of the frames
  have hcalling : ∀ n, Calling P c
      { vm₂ with top := vm.top + args.length, nmetamethodscall := n }
      (.reenter args.length metamethod arg0)
      ({ vm₂ with top := vm.top + args.length, nmetamethodscall := n } : SQVM).snapshot := by
    intro n
    refine ⟨rfl, ?_, ?_, hl⟩
    · rw [← hhost, ← hst.stays.suspended]
    · have hbefore : (Cont.reenter args.length metamethod arg0).before
          ({ vm₂ with top := vm.top + args.length, nmetamethodscall := n } : SQVM).snapshot =
          vm.snapshot := by
        rw [← hs₂]
        have htop : vm₂.top = vm.top := congrArg Snapshot.top hs₂
        simp [Cont.before, SQVM.snapshot, htop]
      rw [hbefore]
      exact hw
  cases metamethod with
  | true =>
    obtain ⟨hn, hg⟩ := (hcalling _).call hr₁ hp₁ he
    exact ⟨hn, fun hg' => hg (hg'.of_eq hgen)⟩
  | false =>
    obtain ⟨hn, hg⟩ := (hcalling vm₂.nmetamethodscall).call hr₁ hp₁ he
    exact ⟨hn, fun hg' => hg (hg'.of_eq hgen)⟩

/-- The topmost invocation is an `Execute` that has entered its loop. -/
structure Executes (P : Prop) (c : Config) (a : Activation) (rest : List Activation) : Prop where
  active : c.active = a :: rest
  kind : a.kind = .execute
  pc : a.pc = .loop ∨ ∃ err last_top, a.pc = .trap err last_top
  script : Script P c.vm.snapshot a.entry
  nnativecalls : c.vm.nnativecalls = a.entry.nnativecalls + 1
  below : Below P c.host a rest

/-- What an instruction may leave behind: a state from which the invocation goes on. -/
structure Goes (P : Prop) (c : Config) (a : Activation) (vm : SQVM) : Prop where
  script : Script P vm.snapshot a.entry
  nnativecalls : vm.nnativecalls = c.vm.nnativecalls
  kept : SQVM.Kept c.vm vm

section Loop

variable (h : Executes P c a rest)
include h

theorem Executes.goto {vm : SQVM} (hg : Goes P c a vm) {a' : Activation} {pc : Pc}
    (hkind : a'.kind = a.kind) (hcont : a'.cont = a.cont) (hentry : a'.entry = a.entry)
    (hpc : pc = .loop ∨ ∃ err top, pc = .trap err top) :
    Nested P (c.goto vm a' rest pc) := by
  have hhost : (c.goto vm a' rest pc).host = c.host := host_eq hg.kept _ _
  refine .runs _ _ rfl (.script ?_ ?_ ?_) ?_
  · rcases hpc with rfl | ⟨err, top, rfl⟩
    · simp [Activation.entered, hkind, h.kind]
    · simp [Activation.entered, hkind, h.kind]
  · exact hentry ▸ hg.script
  · change vm.nnativecalls = a'.entry.nnativecalls + 1
    rw [hg.nnativecalls, h.nnativecalls, hentry]
  · rw [hhost]
    have hb := h.below
    simp only [Below, Activation.before] at hb ⊢
    rw [hcont, hentry]
    exact hb

theorem Executes.entered : a.entered = true := by
  rcases h.pc with hpc | ⟨err, last_top, hpc⟩
  · simp [Activation.entered, h.kind, hpc]
  · simp [Activation.entered, h.kind, hpc]

theorem Executes.loop {vm : SQVM} (hg : Goes P c a vm) (traps : ℤ) :
    Nested P (c.goto vm { a with traps := traps } rest .loop) :=
  h.goto hg rfl rfl rfl (.inl rfl)

theorem Executes.throw {vm : SQVM} (hg : Goes P c a vm) : Nested P (c.throw vm a rest) :=
  h.goto hg rfl rfl rfl (.inr ⟨_, _, rfl⟩)

/-- The entry frame has been left. -/
theorem Executes.finish {vm : SQVM} {a' : Activation} {ok : Bool} {res : SQObject}
    (hcs : vm.callsstack = a.entry.callsstack)
    (hs : P → vm.snapshot = { a.entry with nnativecalls := vm.nnativecalls })
    (hnn : vm.nnativecalls = c.vm.nnativecalls) (hk : SQVM.Kept c.vm vm)
    (hcont : a'.cont = a.cont) (hentry : a'.entry = a.entry) :
    Nested P (c.finish vm a' rest ok res) := by
  have hhost : (c.finish vm a' rest ok res).host = c.host := by
    simp only [Config.host, Config.finish, hk.suspended]
  have hnn' : vm.nnativecalls - 1 = a.entry.nnativecalls := by
    rw [hnn, h.nnativecalls]
    rfl
  refine .back _ _ ok res false rfl rfl (.of_eq (hcs.trans (hentry ▸ rfl))) ?_ (fun hP => ?_) nofun ?_
  · change vm.nnativecalls - 1 = a'.entry.nnativecalls
    rw [hnn', hentry]
  · change ({ vm with nnativecalls := vm.nnativecalls - 1 } : SQVM).snapshot = a'.entry
    have hset : ({ vm with nnativecalls := vm.nnativecalls - 1 } : SQVM).snapshot =
        { vm.snapshot with nnativecalls := vm.nnativecalls - 1 } := rfl
    rw [hset, hs hP, hnn', hentry]
  · rw [hhost]
    have hb := h.below
    simp only [Below, Activation.before] at hb ⊢
    rw [hcont, hentry]
    exact hb

theorem Executes.waits {vm : SQVM} (hg : Goes P c a vm) :
    Waits P c.host vm.snapshot c.active := by
  rw [h.active]
  exact ⟨.script h.entered hg.script (hg.nnativecalls.trans h.nnativecalls), h.below⟩

theorem Executes.store {vm : SQVM} (hs : SQVM.Stored c.vm vm) : Goes P c a vm where
  script := hs.snapshot ▸ h.script
  nnativecalls := congrArg Snapshot.nnativecalls hs.snapshot
  kept := hs.stays.toKept

/-- The bases and the traps stay. -/
theorem Executes.same {vm : SQVM} (hcs : vm.callsstack = c.vm.callsstack)
    (hbase : vm.stackbase = c.vm.stackbase) (htraps : vm.etraps = c.vm.etraps)
    (hnn : vm.nnativecalls = c.vm.nnativecalls) (hk : SQVM.Kept c.vm vm) : Goes P c a vm where
  script := h.script.restored (.of_eq hcs hnn hbase htraps)
  nnativecalls := hnn
  kept := hk

/-- A frame without traps is entered. -/
theorem Executes.enter {vm : SQVM} {f : CallInfo} {newbase newtop : ℤ}
    (he : SQVM.Entered c.vm vm f newbase newtop) (hroot : f.root = false)
    (htraps : f.etraps = 0) : Goes P c a vm where
  script := h.script.push [] he.remembers hroot (fun _ => htraps.symm)
    (congrArg Snapshot.callsstack he.snapshot) (congrArg Snapshot.stackbase he.snapshot)
    (congrArg Snapshot.etraps he.snapshot : vm.etraps = c.vm.etraps)
  nnativecalls := congrArg Snapshot.nnativecalls he.snapshot
  kept := he.kept

theorem Executes.startCall {vm vm' : SQVM} {r args : ℕ} {closure : SQClosure}
    {target stackbase : ℤ} {ok : Bool} (hst : SQVM.Stored c.vm vm)
    (hs : vm.startCall r closure target args stackbase false = some (vm', ok)) :
    Goes P c a vm' ∧ (c.vm.GeneratorsOk → vm'.GeneratorsOk) := by
  obtain ⟨hstarted, hgen⟩ := SQVM.startCall_spec hs
  refine ⟨?_, fun hg => hgen (hg.of_eq hst.generators)⟩
  cases hstarted with
  | refused hs₁ hk₁ =>
    have hsnap := hs₁.trans hst.snapshot
    exact h.same (congrArg Snapshot.callsstack hsnap) (congrArg Snapshot.stackbase hsnap)
      (congrArg Snapshot.etraps hsnap) (congrArg Snapshot.nnativecalls hsnap)
      (hst.stays.toKept.trans hk₁.toKept)
  | leaked f he hroot htraps => exact h.enter (he.after hst) hroot htraps
  | entered f he hroot htraps => exact h.enter (he.after hst) hroot htraps
  | created hs₁ hk₁ =>
    have hsnap := hs₁.trans hst.snapshot
    exact h.same (congrArg Snapshot.callsstack hsnap) (congrArg Snapshot.stackbase hsnap)
      (congrArg Snapshot.etraps hsnap) (congrArg Snapshot.nnativecalls hsnap)
      (hst.stays.toKept.trans hk₁)

/-- The native function of a call instruction runs, or the instruction fails. -/
theorem Executes.enterNative {vm vm' : SQVM} {r nargs : ℕ} {stkbase : ℤ} {ok : Bool}
    {k : Cont} (hpc : a.pc = .loop) (hg : P → c.vm.GeneratorsOk) (hst : SQVM.Stored c.vm vm)
    (hk : k = .opConstruct ∨ ∃ arg0, k = .opCall arg0)
    (hs : vm.enterNative r (c.heap.nativeclosure r) nargs stkbase = some (vm', ok)) :
    Good P (if ok then c.enter vm' .native .loop 0 k none vm.snapshot
      else c.throw vm' a rest) := by
  obtain ⟨hstarted, hgen, -⟩ := SQVM.enterNative_spec hs
  have hg' : P → vm'.GeneratorsOk := fun hP => ((hg hP).of_eq hst.generators).of_eq hgen
  have hlinked : Linked k c.active := by
    rcases hk with rfl | ⟨arg0, rfl⟩
    · exact ⟨a, rest, h.active, h.kind, hpc⟩
    · exact ⟨a, rest, h.active, h.kind, hpc⟩
  have hbefore : k.before vm.snapshot = vm.snapshot := by
    rcases hk with rfl | ⟨arg0, rfl⟩
    · rfl
    · rfl
  have hcalling : Calling P c vm k vm.snapshot :=
    { snapshot := rfl
      host := by
        rw [hst.stays.suspended]
        rfl
      waits := by
        rw [hbefore]
        exact h.waits (h.store hst)
      linked := hlinked }
  cases hstarted with
  | refused hs₁ hk₁ =>
    have hsnap := hs₁.trans hst.snapshot
    exact ⟨h.throw (h.same (congrArg Snapshot.callsstack hsnap)
      (congrArg Snapshot.stackbase hsnap) (congrArg Snapshot.etraps hsnap)
      (congrArg Snapshot.nnativecalls hsnap) (hst.stays.toKept.trans hk₁)), hg'⟩
  | leaked f he hroot htraps => exact ⟨h.throw (h.enter (he.after hst) hroot htraps), hg'⟩
  | entered f vm₁ he hroot htraps hs₁ hk₁ =>
    refine ⟨hcalling.runs (he.kept.trans hk₁) (.native rfl rfl
      ⟨⟨f, vm.callsstack, ?_, hroot, .refl _⟩, fun _ => ⟨f, ?_, htraps⟩⟩ ?_), hg'⟩
    · rw [hs₁, he.snapshot]
      rfl
    · refine body_first
        (stkbase + nargs + (c.heap.nativeclosure r).outervalues.length) (vm.nnativecalls + 1) []
        he.remembers ?_ rfl rfl (fun _ => by simp [htraps])
      rw [hs₁, he.snapshot]
      rfl
    · rw [hs₁]
      rfl

/-- A closure is started, whether it is called or a constructor. -/
theorem Executes.startsClosure {r args : ℕ} {target stackbase : ℤ}
    (hg : P → c.vm.GeneratorsOk) (hst : SQVM.Stored c.vm vm)
    (hs : ((vm.startCall r (c.heap.closure r) target args stackbase false).map
      fun (vm, ok) => if ok then c.goto vm a rest .loop else c.throw vm a rest) = some c') :
    Good P c' := by
  obtain ⟨⟨vm', ok⟩, hs', rfl⟩ := Option.map_eq_some_iff.mp hs
  obtain ⟨hgoes, hgen⟩ := h.startCall hst hs'
  cases ok with
  | true => exact ⟨h.loop hgoes a.traps, fun hP => hgen (hg hP)⟩
  | false => exact ⟨h.throw hgoes, fun hP => hgen (hg hP)⟩

theorem Executes.startsNative {r nargs : ℕ} {stkbase : ℤ} {k : Cont} (hpc : a.pc = .loop)
    (hg : P → c.vm.GeneratorsOk) (hst : SQVM.Stored c.vm vm)
    (hk : k = .opConstruct ∨ ∃ arg0, k = .opCall arg0)
    (hs : ((vm.enterNative r (c.heap.nativeclosure r) nargs stkbase).map
      fun (vm', ok) => if ok then c.enter vm' .native .loop 0 k none vm.snapshot
        else c.throw vm' a rest) = some c') : Good P c' := by
  obtain ⟨⟨vm', ok⟩, hs', rfl⟩ := Option.map_eq_some_iff.mp hs
  exact h.enterNative hpc hg hst hk hs'

theorem Executes.opCall {arg0 : BitVec 8} {arg1 arg2 arg3 : ℕ} (hpc : a.pc = .loop)
    (hg : P → c.vm.GeneratorsOk) (hr : MetacallMeets ClosureStays c arg1 arg2 arg3)
    (hp : P → MetacallMeets ClosureFits c arg1 arg2 arg3)
    (hs : c.opCall a rest arg0 arg1 arg2 arg3 = some c') : Good P c' := by
  unfold Config.opCall at hs
  obtain ⟨clo, hclo, hs⟩ := Option.bind_eq_some_iff.mp hs
  have hrefuse : Good P (c.throw (c.vm.raiseError "attempt to call '%s'") a rest) :=
    ⟨h.throw (h.store (SQVM.stored_raiseError _ _)), hg⟩
  cases clo with
  | closure r => exact h.startsClosure hg (.refl _) hs
  | nativeclosure r => exact h.startsNative hpc hg (.refl _) (.inr ⟨_, rfl⟩) hs
  | clazz r =>
    obtain ⟨vm₁, h₁, hs⟩ := Option.bind_eq_some_iff.mp hs
    have hst := (SQVM.stored_createInstance c.vm).trans (SQVM.stored_deliver h₁)
    split at hs
    · obtain ⟨vm₂, h₂, hs⟩ := Option.bind_eq_some_iff.mp hs
      exact h.startsClosure hg (hst.trans (SQVM.stored_setSlot h₂)) hs
    · obtain ⟨vm₂, h₂, hs⟩ := Option.bind_eq_some_iff.mp hs
      exact h.startsNative hpc hg (hst.trans (SQVM.stored_setSlot h₂)) (.inl rfl) hs
    · cases hs
      exact ⟨h.loop (h.store hst) a.traps, fun hP => (hg hP).of_eq hst.generators⟩
  | delegable type r =>
    simp only at hs
    split at hs
    · cases hs
      exact hrefuse
    · obtain ⟨args, hargs, hs⟩ := Option.bind_eq_some_iff.mp hs
      obtain ⟨hn, hgen⟩ := reenter_nested rfl (h.waits (h.store (.refl _)))
        (show Linked (.reenter _ _ (some _)) _ from ⟨a, rest, h.active, h.kind, hpc⟩)
        (hr type r args hclo hargs) (fun hP => hp hP type r args hclo hargs) hs
      exact ⟨hn, fun hP => hgen (hg hP)⟩
  | _ =>
    cases hs
    exact hrefuse

theorem Executes.opTailcall {arg0 : BitVec 8} {arg1 arg2 arg3 : ℕ} (hpc : a.pc = .loop)
    (hg : P → c.vm.GeneratorsOk) (hr : MetacallMeets ClosureStays c arg1 arg2 arg3)
    (hp : P → MetacallMeets ClosureFits c arg1 arg2 arg3)
    (hs : c.opTailcall a rest arg0 arg1 arg2 arg3 = some c') : Good P c' := by
  unfold Config.opTailcall at hs
  obtain ⟨t, _, hs⟩ := Option.bind_eq_some_iff.mp hs
  split at hs
  · rename_i r ci fs hcs _
    simp only at hs
    split_ifs at hs with hgen
    · exact h.opCall hpc hg hr hp hs
    · obtain ⟨vm₁, hmove, hs⟩ := Option.bind_eq_some_iff.mp hs
      obtain ⟨⟨vm₂, ok⟩, hstart, rfl⟩ := Option.map_eq_some_iff.mp hs
      have hst := SQVM.stored_moveArgs hmove
      have hcs₁ : vm₁.callsstack = ci :: fs := hst.callsstack.trans hcs
      obtain ⟨⟨ci', top, hsame, hsnap⟩, hk, hgens⟩ :=
        SQVM.startCall_tail hcs₁ (Bool.eq_false_iff.mpr hgen) hstart
      obtain ⟨hroot, htraps, hbase, htop, -⟩ := hsame
      have hsnap₁ : vm₁.snapshot = c.vm.snapshot := hst.snapshot
      rw [hsnap₁] at hsnap
      have hcs₂ : vm₂.callsstack = ci' :: fs := congrArg Snapshot.callsstack hsnap
      have hbase₂ : vm₂.stackbase = c.vm.stackbase := congrArg Snapshot.stackbase hsnap
      have htraps₂ : vm₂.etraps = c.vm.etraps := congrArg Snapshot.etraps hsnap
      have hnn₂ : vm₂.nnativecalls = c.vm.nnativecalls := congrArg Snapshot.nnativecalls hsnap
      have hk₁ : SQVM.Kept c.vm vm₁ :=
        ⟨hst.stays.suspended, hst.stays.suspendedRoot, hst.stays.nmetamethodscall⟩
      have hgoes : Goes P c a vm₂ :=
        { script := h.script.setTop ci' hcs hcs₂ hroot hbase htop (fun _ => hbase₂)
            (fun _ traps below htr _ => ⟨traps, htraps₂.trans htr, by rw [htraps]⟩)
          nnativecalls := hnn₂
          kept := hk₁.trans hk }
      have hg' : P → vm₂.GeneratorsOk := fun hP =>
        ((hg hP).of_eq (hst.generators : vm₁.generators = c.vm.generators)).of_eq hgens
      cases ok with
      | true => exact ⟨h.loop hgoes a.traps, hg'⟩
      | false => exact ⟨h.throw hgoes, hg'⟩
  · exact h.opCall hpc hg hr hp hs

/-- The current frame is left through `Return`. -/
theorem Executes.returned {s : Snapshot} {vm' : SQVM} {ci : CallInfo} {fs : List CallInfo}
    {b : Bool} {res : SQObject} {traps : ℤ} (hs : Script P s a.entry)
    (hnn : s.nnativecalls = c.vm.nnativecalls) (hcs : s.callsstack = ci :: fs)
    (htraps : P → ci.etraps = 0) (hb : b = ci.root) (hleave : vm'.snapshot = s.leave ci fs)
    (hk : SQVM.Kept c.vm vm') :
    Nested P (c.returned { a with traps := traps } rest (vm', b, res)) := by
  have hnn' : vm'.nnativecalls = c.vm.nnativecalls :=
    (congrArg Snapshot.nnativecalls hleave).trans hnn
  cases b with
  | true =>
    obtain ⟨hrest, hentry⟩ := hs.exit hcs hb.symm htraps
    refine h.finish ((congrArg Snapshot.callsstack hleave).trans hrest) (fun hP => ?_) hnn'
      hk rfl rfl
    rw [hleave, hentry hP, hnn']
    exact congrArg (fun n => ({ a.entry with nnativecalls := n } : Snapshot)) hnn
  | false =>
    exact h.goto ⟨hs.pop hcs hb.symm htraps hleave, hnn', hk⟩ rfl rfl rfl (.inl rfl)

omit h in
theorem killCi_spec (vm : SQVM) :
    vm.killCi.snapshot = vm.snapshot ∧ SQVM.Stays vm vm.killCi ∧
      (vm.GeneratorsOk → vm.killCi.GeneratorsOk) := by
  unfold SQVM.killCi
  split
  · refine ⟨rfl, ⟨⟨rfl, rfl, rfl⟩, rfl⟩, fun hg gen hmem hsusp => ?_⟩
    obtain ⟨i, hi, rfl⟩ := List.mem_iff_getElem.mp hmem
    simp only [SQVM.kill, List.getElem_modify] at hsusp ⊢
    -- the generator that was killed is not suspended
    split_ifs at hsusp ⊢
    exact hg _ (List.getElem_mem _) hsusp
  · exact ⟨rfl, ⟨⟨rfl, rfl, rfl⟩, rfl⟩, id⟩

theorem Executes.opReturn {arg0 arg1 : ℕ} (hg : P → c.vm.GeneratorsOk)
    (htraps : P → ∀ ci, c.vm.callsstack.head? = some ci → ci.etraps = 0)
    (hs : c.opReturn a rest arg0 arg1 = some c') : Good P c' := by
  obtain ⟨⟨vm, b, res⟩, hret, rfl⟩ := Option.map_eq_some_iff.mp hs
  obtain ⟨hkill, hk, hgk⟩ := killCi_spec c.vm
  obtain ⟨ci, fs, hcs⟩ := h.script.exists_head
  have hcs₁ : c.vm.killCi.callsstack = ci :: fs :=
    (congrArg Snapshot.callsstack hkill).trans hcs
  obtain ⟨hb, hleave, hgens, hk'⟩ := SQVM.Return_spec hcs₁ hret
  refine ⟨?_, fun hP => ?_⟩
  · exact h.returned h.script rfl hcs
      (fun hP => htraps hP ci (by rw [show c.vm.callsstack = ci :: fs from hcs]; rfl)) hb
      (hkill ▸ hleave) (hk.toKept.trans hk'.toKept)
  · have : vm.GeneratorsOk := (hgk (hg hP)).of_eq hgens
    unfold Config.returned
    split_ifs
    · exact this
    · exact this

/-- `Yield` hands the traps of the frame over to the generator. -/
theorem Executes.yield {vm : SQVM} {ci : CallInfo} {fs : List CallInfo}
    (hcs : c.vm.callsstack = ci :: fs)
    (hs : vm.snapshot = { c.vm.snapshot with etraps := c.vm.etraps.drop ci.etraps }) :
    Script P { vm.snapshot with callsstack := { ci with etraps := 0 } :: fs } a.entry := by
  refine h.script.setTop _ hcs rfl rfl rfl rfl
    (fun _ => (congrArg Snapshot.stackbase hs : vm.stackbase = c.vm.stackbase))
    fun _ traps below htr hle => ⟨traps.drop ci.etraps, ?_, ?_⟩
  · have htr' : c.vm.etraps = traps ++ below := htr
    have hdrop : vm.etraps = c.vm.etraps.drop ci.etraps := congrArg Snapshot.etraps hs
    change vm.etraps = _
    rw [hdrop, htr', List.drop_append_of_le_length hle]
  · rw [List.length_drop, Nat.sub_add_cancel hle]
    rfl

theorem Executes.opYield {arg0 arg1 arg2 : ℕ} (hg : P → c.vm.GeneratorsOk)
    (hs : c.opYield a rest arg0 arg1 arg2 = some c') : Good P c' := by
  unfold Config.opYield at hs
  split at hs
  · rename_i g etraps _ fs hcs
    obtain ⟨temp, _, hs⟩ := Option.bind_eq_some_iff.mp hs
    obtain ⟨⟨vm₁, ok⟩, hyield, hs⟩ := Option.bind_eq_some_iff.mp hs
    obtain ⟨hs₁, hk₁, hgens, -⟩ := SQVM.yield_spec hcs hyield
    have hg₁ : P → vm₁.GeneratorsOk := fun hP => hgens (h.script.traps_le hcs hP) (hg hP)
    cases ok with
    | false =>
      cases hs
      exact ⟨h.throw (h.same (congrArg Snapshot.callsstack hs₁)
        (congrArg Snapshot.stackbase hs₁) (congrArg Snapshot.etraps hs₁)
        (congrArg Snapshot.nnativecalls hs₁) hk₁.toKept), hg₁⟩
    | true =>
      obtain ⟨vm₂, hput, hs⟩ := Option.bind_eq_some_iff.mp hs
      obtain ⟨⟨vm₃, b, res⟩, hret, rfl⟩ := Option.map_eq_some_iff.mp hs
      have hst : SQVM.Stored vm₁ vm₂ := by
        split_ifs at hput
        · exact SQVM.stored_setSlot hput
        · exact Option.some.inj hput ▸ .refl vm₁
      have hcs₂ := hst.callsstack.trans ((congrArg Snapshot.callsstack hs₁).trans hcs)
      obtain ⟨hb, hleave, hgens₃, hk₃⟩ := SQVM.Return_spec hcs₂ hret
      refine ⟨h.returned (h.yield hcs hs₁) ?_ rfl (fun _ => rfl) hb ?_
        ((hk₁.toKept.trans hst.stays.toKept).trans hk₃.toKept), fun hP => ?_⟩
      · exact congrArg Snapshot.nnativecalls hs₁
      · rw [hleave, hst.snapshot]
        rfl
      · have : vm₃.GeneratorsOk := ((hg₁ hP).of_eq hst.generators).of_eq hgens₃
        unfold Config.returned
        split_ifs
        · exact this
        · exact this
  · cases hs
    exact ⟨h.throw (h.store (SQVM.stored_raiseError _ _)), hg⟩

/-- The generator's frame comes back with its traps. -/
theorem Executes.resume {vm₀ vm : SQVM} {g : ℕ} {dest : ℤ} {ok : Bool}
    (hg : P → c.vm.GeneratorsOk) (hst : SQVM.Stored c.vm vm₀)
    (hroot : NotRoot c (some (.generator g))) (hs : vm₀.resume g dest = some (vm, ok)) :
    Goes P c a vm ∧ (P → vm.GeneratorsOk) := by
  obtain ⟨hresumed, hgens⟩ := SQVM.resume_spec hs
  refine ⟨?_, fun hP => hgens ((hg hP).of_eq hst.generators)⟩
  cases hresumed with
  | refused hs₁ hk₁ =>
    have hsnap := hs₁.trans hst.snapshot
    exact h.same (congrArg Snapshot.callsstack hsnap) (congrArg Snapshot.stackbase hsnap)
      (congrArg Snapshot.etraps hsnap) (congrArg Snapshot.nnativecalls hsnap)
      (hst.stays.toKept.trans hk₁)
  | leaked f gen _ _ he hroot' htraps => exact h.enter (he.after hst) hroot' htraps
  | entered f gen vm₁ hgen hsusp hroom he hroot' htraps hs₁ hk₁ =>
    rw [hst.generators] at hgen
    rw [hst.hasRoom, show vm₀.top = c.vm.top from congrArg Snapshot.top hst.snapshot] at hroom
    have he := he.after hst
    have hf : f.root = false := hroot'.trans (hroot g gen rfl hgen hsusp hroom)
    have hcs : vm.callsstack = f :: c.vm.callsstack :=
      (congrArg Snapshot.callsstack hs₁).trans (congrArg Snapshot.callsstack he.snapshot)
    have hbase : vm.stackbase = vm₀.top :=
      (congrArg Snapshot.stackbase hs₁).trans (congrArg Snapshot.stackbase he.snapshot)
    have htraps₁ : vm₁.etraps = c.vm.etraps := congrArg Snapshot.etraps he.snapshot
    have htraps' : vm.etraps = (gen.etraps.take gen.ci.etraps).reverse ++ c.vm.etraps :=
      (congrArg Snapshot.etraps hs₁).trans (htraps₁ ▸ rfl)
    have hnn : vm.nnativecalls = c.vm.nnativecalls :=
      (congrArg Snapshot.nnativecalls hs₁).trans (congrArg Snapshot.nnativecalls he.snapshot)
    refine ⟨h.script.push _ he.remembers hf (fun hP => ?_) hcs hbase htraps', hnn,
      he.kept.trans hk₁⟩
    have hle := hg hP gen (List.mem_of_getElem? hgen) hsusp
    rw [List.length_reverse, List.length_take, htraps]
    omega

theorem Executes.opResume {arg0 arg1 : ℕ} (hg : P → c.vm.GeneratorsOk)
    (hroot : NotRoot c (c.vm.stk arg1)) (hs : c.opResume a rest arg0 arg1 = some c') :
    Good P c' := by
  unfold Config.opResume at hs
  obtain ⟨o, ho, hs⟩ := Option.bind_eq_some_iff.mp hs
  rw [ho] at hroot
  split at hs
  · obtain ⟨⟨vm, ok⟩, hres, rfl⟩ := Option.map_eq_some_iff.mp hs
    obtain ⟨hgoes, hg'⟩ := h.resume hg (.refl _) hroot hres
    cases ok with
    | true => exact ⟨h.loop hgoes _, hg'⟩
    | false => exact ⟨h.throw hgoes, hg'⟩
  · cases hs
    exact ⟨h.throw (h.store (SQVM.stored_raiseError _ _)), hg⟩

theorem Executes.good_self (hg : P → c.vm.GeneratorsOk) : Good P c where
  nested := by
    exact .runs a rest h.active (.script h.entered h.script h.nnativecalls) h.below
  generators := hg

/-- An instruction that does not touch the frames. -/
theorem Executes.sameFrames {vm : SQVM} (hg : P → c.vm.GeneratorsOk)
    (hs : vm.snapshot = c.vm.snapshot) (hgens : vm.generators = c.vm.generators)
    (hk : SQVM.Kept c.vm vm) : Good P { c with vm := vm } := by
  have heq : ({ c with vm := vm } : Config) = c.goto vm { a with traps := a.traps } rest a.pc := by
    simp only [Config.goto, ← h.active]
  rw [heq]
  exact ⟨h.goto (h.same (congrArg Snapshot.callsstack hs) (congrArg Snapshot.stackbase hs)
    (congrArg Snapshot.etraps hs) (congrArg Snapshot.nnativecalls hs) hk) rfl rfl rfl h.pc,
    fun hP => (hg hP).of_eq hgens⟩

theorem Executes.stored {vm : SQVM} (hg : P → c.vm.GeneratorsOk) (hst : SQVM.Stored c.vm vm) :
    Good P { c with vm := vm } :=
  h.sameFrames hg hst.snapshot hst.generators hst.stays.toKept

theorem Executes.opForeach {arg0 arg2 : ℕ} (hg : P → c.vm.GeneratorsOk)
    (hroot : NotRoot c (c.vm.stk arg0)) (hs : c.opForeach a rest arg0 arg2 = some c') :
    Good P c' := by
  unfold Config.opForeach at hs
  obtain ⟨o, ho, hs⟩ := Option.bind_eq_some_iff.mp hs
  rw [ho] at hroot
  split at hs
  · split at hs
    · cases hs
    · cases hs
      exact h.good_self hg
    · cases hs
      exact ⟨h.throw (h.store (SQVM.stored_raiseError _ _)), hg⟩
    · obtain ⟨o4, _, hs⟩ := Option.bind_eq_some_iff.mp hs
      obtain ⟨vm₁, h₁, hs⟩ := Option.bind_eq_some_iff.mp hs
      obtain ⟨vm₂, h₂, hs⟩ := Option.bind_eq_some_iff.mp hs
      obtain ⟨⟨vm₃, ok⟩, hres, rfl⟩ := Option.map_eq_some_iff.mp hs
      obtain ⟨hgoes, hg'⟩ := h.resume hg ((SQVM.stored_setSlot h₁).trans (SQVM.stored_setSlot h₂))
        hroot hres
      exact ⟨h.loop hgoes a.traps, hg'⟩
  · cases hs
    exact h.good_self hg

theorem Executes.pushTrap {arg0 : ℕ} (hg : P → c.vm.GeneratorsOk)
    (hs : c.instr a rest (.pushTrap arg0) = some c') : Good P c' := by
  cases hs
  obtain ⟨ci, fs, hcs⟩ := h.script.exists_head
  have hcs' : (c.vm.pushTrap arg0).callsstack = { ci with etraps := ci.etraps + 1 } :: fs :=
    SQVM.setCi_callsstack hcs _
  have hscript : Script P (c.vm.pushTrap arg0).snapshot a.entry := by
    refine h.script.setTop _ hcs hcs' rfl rfl rfl (fun _ => rfl) fun _ traps below htr _ =>
      ⟨⟨c.vm.stackbase, c.vm.top, arg0⟩ :: traps, congrArg (_ :: ·) htr, ?_⟩
    rw [List.length_cons]
    change traps.length + 1 + ci.etraps = traps.length + (ci.etraps + 1)
    omega
  exact ⟨h.loop ⟨hscript, rfl, ⟨rfl, rfl, rfl⟩⟩ _, hg⟩

omit h in
private theorem popTraps_spec {entry : Snapshot} {n : ℕ} (hs : Script P vm.snapshot entry)
    (hn : P → ∀ ci, vm.callsstack.head? = some ci → n ≤ ci.etraps)
    (hpop : vm.popTraps n = some vm') :
    Script P vm'.snapshot entry ∧ vm'.nnativecalls = vm.nnativecalls ∧ SQVM.Kept vm vm' ∧
      vm'.generators = vm.generators := by
  induction n generalizing vm with
  | zero =>
    cases hpop
    exact ⟨hs, rfl, ⟨rfl, rfl, rfl⟩, rfl⟩
  | succ n ih =>
    simp only [SQVM.popTraps] at hpop
    split at hpop
    · cases hpop
    · rename_i et etraps htraps
      obtain ⟨ci, fs, hcs⟩ := hs.exists_head
      have hle : P → n + 1 ≤ ci.etraps := fun hP =>
        hn hP ci (by rw [show vm.callsstack = ci :: fs from hcs]; rfl)
      have hs' : Script P (({ vm with etraps := etraps } : SQVM).setCi
          fun ci => { ci with etraps := ci.etraps - 1 }).snapshot entry :=
        hs.popTrap hcs (SQVM.setCi_callsstack hcs _) (fun _ => rfl) htraps rfl
          fun hP => Nat.lt_of_lt_of_le n.succ_pos (hle hP)
      have hn' : P → ∀ ci', ((({ vm with etraps := etraps } : SQVM).setCi
          fun ci => { ci with etraps := ci.etraps - 1 }).callsstack).head? = some ci' →
          n ≤ ci'.etraps := by
        intro hP ci' hci'
        rw [SQVM.setCi_callsstack (show ({ vm with etraps := etraps } : SQVM).callsstack =
          ci :: fs from hcs)] at hci'
        cases hci'
        have hpos := hle hP
        change n ≤ ci.etraps - 1
        omega
      obtain ⟨hs'', hnn, hk, hgens⟩ := ih hs' hn' hpop
      exact ⟨hs'', hnn, ⟨hk.suspended, hk.suspendedRoot, hk.nmetamethodscall⟩, hgens⟩

theorem Executes.popTrap {arg0 : ℕ} (hg : P → c.vm.GeneratorsOk)
    (hn : P → ∀ ci, c.vm.callsstack.head? = some ci → arg0 ≤ ci.etraps)
    (hs : c.instr a rest (.popTrap arg0) = some c') : Good P c' := by
  obtain ⟨vm, hpop, rfl⟩ := Option.map_eq_some_iff.mp hs
  obtain ⟨hs', hnn, hk, hgens⟩ := popTraps_spec h.script hn hpop
  exact ⟨h.loop ⟨hs', hnn, hk⟩ _, fun hP => (hg hP).of_eq hgens⟩

theorem Executes.instr {i : Instr} (hpc : a.pc = .loop) (hg : P → c.vm.GeneratorsOk)
    (hr : KeepsRoots c (.instr i))
    (hp : P → KeepsPlaces c (.instr i)) (hs : c.instr a rest i = some c') : Good P c' := by
  cases i with
  | write reg o =>
    obtain ⟨vm, hset, rfl⟩ := Option.map_eq_some_iff.mp hs
    exact h.stored hg (SQVM.stored_setSlot hset)
  | setOuter n o =>
    simp only [Config.instr] at hs
    split at hs
    · obtain ⟨vm, hset, rfl⟩ := Option.map_eq_some_iff.mp hs
      exact h.stored hg (SQVM.stored_setSlot hset)
    · cases hs
      exact h.good_self hg
  | capture reg =>
    obtain ⟨outers, ho⟩ := SQVM.findOuter_spec c.vm (c.vm.stackbase + reg)
    simp only [Config.instr, ho] at hs
    cases hs
    exact h.sameFrames hg rfl rfl ⟨rfl, rfl, rfl⟩
  | close arg1 =>
    cases hs
    exact h.sameFrames hg rfl rfl ⟨rfl, rfl, rfl⟩
  | call arg0 arg1 arg2 arg3 => exact h.opCall hpc hg hr.1 (fun hP => (hp hP).1) hs
  | tailcall arg0 arg1 arg2 arg3 => exact h.opTailcall hpc hg hr.1 (fun hP => (hp hP).1) hs
  | ret arg0 arg1 => exact h.opReturn hg (fun hP => (hp hP).2) hs
  | yield arg0 arg1 arg2 => exact h.opYield hg hs
  | resume arg0 arg1 => exact h.opResume hg hr.2 hs
  | foreach arg0 arg2 => exact h.opForeach hg hr.2 hs
  | pushTrap arg0 => exact h.pushTrap hg hs
  | popTrap arg0 => exact h.popTrap hg (fun hP => (hp hP).2) hs
  | throw o =>
    cases hs
    exact ⟨h.throw (h.store ⟨_, _, _, _, rfl, rfl⟩), hg⟩

end Loop

/-- An `Execute` in its loop has its frames on top. -/
theorem Nested.executes (hn : Nested P c) (hactive : c.active = a :: rest)
    (hkind : a.kind = .execute) (hpc : a.pc = .loop ∨ ∃ err last_top, a.pc = .trap err last_top) :
    Executes P c a rest := by
  cases hn with
  | host hnil => rw [hnil] at hactive; cases hactive
  | runs a' rest' hact hruns hbelow =>
    obtain ⟨rfl, rfl⟩ := List.cons.inj (hact.symm.trans hactive)
    cases hruns with
    | script _ hscript hnn => exact ⟨hactive, hkind, hpc, hscript, hnn, hbelow⟩
    | native hk => rw [hk] at hkind; cases hkind
    | failed _ hfailed =>
      rcases hpc with hpc | ⟨_, _, hpc⟩
      · rw [hpc] at hfailed; cases hfailed
      · rw [hpc] at hfailed; cases hfailed
  | back a' rest' ok res susp hact hdone =>
    obtain ⟨rfl, rfl⟩ := List.cons.inj (hact.symm.trans hactive)
    rcases hpc with hpc | ⟨_, _, hpc⟩
    · rw [hpc] at hdone; cases hdone
    · rw [hpc] at hdone; cases hdone
  | suspended a' res hact hdone =>
    obtain ⟨rfl, rfl⟩ := List.cons.inj (hact.symm.trans hactive)
    rcases hpc with hpc | ⟨_, _, hpc⟩
    · rw [hpc] at hdone; cases hdone
    · rw [hpc] at hdone; cases hdone

section Loop

variable (h : Executes P c a rest)
include h

/-- One round of the loop of `exception_trap`. -/
theorem Executes.unwind {err : SQObject} {last_top : ℤ} (hg : P → c.vm.GeneratorsOk)
    (hp : P → KeepsPlaces c .unwind) (hs : c.unwind a rest err last_top = some c') :
    Good P c' := by
  obtain ⟨ci, fs, hcs⟩ := h.script.exists_head
  have hcs₀ : c.vm.callsstack = ci :: fs := hcs
  simp only [Config.unwind, hcs₀] at hs
  split at hs
  · -- the frame catches the exception
    rename_i hpos
    split at hs
    · cases hs
    · rename_i et etraps htraps
      obtain ⟨vm₁, hset, hs⟩ := Option.bind_eq_some_iff.mp hs
      obtain ⟨vm₂, hnull, rfl⟩ := Option.map_eq_some_iff.mp hs
      have hst₁ := SQVM.stored_setSlot hset
      have hst₂ := SQVM.stored_nullDown hnull
      have hcs₁ : vm₁.callsstack = ci :: fs := hst₁.callsstack
      have hcs₂ := hst₂.callsstack.trans (SQVM.setCi_callsstack hcs₁ _)
      have hbase : vm₂.stackbase = et.stackbase := (congrArg Snapshot.stackbase hst₂.snapshot).trans
        (congrArg Snapshot.stackbase hst₁.snapshot)
      have htraps₂ : vm₂.etraps = etraps := (congrArg Snapshot.etraps hst₂.snapshot).trans
        (congrArg Snapshot.etraps hst₁.snapshot)
      have hnn : vm₂.nnativecalls = c.vm.nnativecalls :=
        (congrArg Snapshot.nnativecalls hst₂.snapshot).trans
          (congrArg Snapshot.nnativecalls hst₁.snapshot)
      have hsb : P → vm₂.stackbase = c.vm.stackbase := fun hP =>
        hbase.trans ((hp hP).2 ci et (by rw [hcs₀]; rfl) hpos (by rw [htraps]; rfl))
      have hk₁ : SQVM.Kept c.vm vm₁ :=
        ⟨hst₁.stays.suspended, hst₁.stays.suspendedRoot, hst₁.stays.nmetamethodscall⟩
      have hk₂ : SQVM.Kept vm₁ vm₂ :=
        ⟨hst₂.stays.suspended, hst₂.stays.suspendedRoot, hst₂.stays.nmetamethodscall⟩
      exact ⟨h.loop ⟨h.script.popTrap hcs hcs₂ hsb htraps htraps₂ fun _ => hpos, hnn,
        hk₁.trans hk₂⟩ _, fun hP => ((hg hP).of_eq hst₁.generators).of_eq hst₂.generators⟩
  · rename_i hpos
    obtain ⟨vm, hleave, rfl⟩ := Option.map_eq_some_iff.mp hs
    obtain ⟨hkill, hk, hgk⟩ := killCi_spec c.vm
    have hcs₁ : c.vm.killCi.callsstack = ci :: fs :=
      (congrArg Snapshot.callsstack hkill).trans hcs
    obtain ⟨hs₁, hgens, hk₁⟩ := SQVM.leaveFrame_spec hcs₁ hleave
    rw [hkill] at hs₁
    have htraps : P → ci.etraps = 0 := fun _ => by omega
    have hk₂ := hk.toKept.trans hk₁.toKept
    have hnn : vm.nnativecalls = c.vm.nnativecalls := congrArg Snapshot.nnativecalls hs₁
    have hg' : P → vm.GeneratorsOk := fun hP => (hgk (hg hP)).of_eq hgens
    split_ifs with hroot
    · obtain ⟨hrest, hentry⟩ := h.script.exit hcs hroot htraps
      refine ⟨h.finish ((congrArg Snapshot.callsstack hs₁).trans hrest) (fun hP => ?_) hnn
        ⟨hk₂.suspended, hk₂.suspendedRoot, hk₂.nmetamethodscall⟩ rfl rfl, hg'⟩
      change vm.snapshot = { a.entry with nnativecalls := vm.nnativecalls }
      rw [hnn]
      exact hs₁.trans (hentry hP)
    · exact ⟨h.goto ⟨h.script.pop hcs (Bool.eq_false_iff.mpr hroot) htraps hs₁, hnn, hk₂⟩
        rfl rfl rfl (.inr ⟨_, _, rfl⟩), hg'⟩

end Loop

/-- The topmost invocation waits when it makes a call. -/
theorem Nested.waits (hn : Nested P c) (hre : c.canReenter = true)
    (hr : Restored P vm.snapshot c.vm.snapshot)
    (htop : c.inNative = true ∨ vm.snapshot = c.vm.snapshot) :
    Waits P c.host vm.snapshot c.active := by
  cases hn with
  | host hnil hidle =>
    rw [hnil]
    exact hidle.restored hr
  | runs a rest hact hruns hbelow =>
    rw [hact]
    refine ⟨hruns.restored hr fun hpc _ => ?_, hbelow⟩
    rcases htop with hin | htop
    · simp [Config.inNative, hact, hpc] at hin
    · exact htop
  | back a rest ok res susp hact hdone => simp [Config.canReenter, hact, hdone] at hre
  | suspended a res hact hdone => simp [Config.canReenter, hact, hdone] at hre

/-- A native function or the host works on its part of the stack. -/
theorem Nested.native (hn : Nested P c) (hin : c.inNative = true)
    (hr : Restored P vm.snapshot c.vm.snapshot) (hk : SQVM.Kept c.vm vm) :
    Nested P { c with vm := vm } := by
  have hhost : ({ c with vm := vm } : Config).host = c.host := host_eq hk _ _
  cases hn with
  | host hnil hidle =>
    refine .host hnil ?_
    rw [hhost]
    exact hidle.restored hr
  | runs a rest hact hruns hbelow =>
    refine .runs a rest hact (hruns.restored hr fun hpc _ => ?_) (hhost ▸ hbelow)
    simp [Config.inNative, hact, hpc] at hin
  | back a rest ok res susp hact hdone => simp [Config.inNative, hact, hdone] at hin
  | suspended a res hact hdone => simp [Config.inNative, hact, hdone] at hin

/-- A step that leaves the frames alone. -/
theorem Nested.sameSnapshot (hn : Nested P c) {heap : Heap} (hs : vm.snapshot = c.vm.snapshot)
    (hk : SQVM.Kept c.vm vm) : Nested P { c with vm := vm, heap := heap } := by
  have hhost : ({ c with vm := vm, heap := heap } : Config).host = c.host := host_eq hk _ _
  cases hn with
  | host hnil hidle => exact .host hnil (by rw [hhost]; exact hs ▸ hidle)
  | runs a rest hact hruns hbelow => exact .runs a rest hact (hs ▸ hruns) (hhost ▸ hbelow)
  | back a rest ok res susp hact hdone hcs hnn hent hsusp hbelow =>
    refine .back a rest ok res susp hact hdone
      ((Above.of_eq (congrArg Snapshot.callsstack hs)).trans hcs)
      ((congrArg Snapshot.nnativecalls hs).trans hnn) (fun hP => hs.trans (hent hP))
      (fun h => ?_) (hhost ▸ hbelow)
    obtain ⟨hok, h1, h2⟩ := hsusp h
    exact ⟨hok, (congrArg Snapshot.nnativecalls hs).trans h1, hk.suspended.trans h2⟩
  | suspended a res hact hdone hsusp hl hidle =>
    exact .suspended a res hact hdone (hk.suspended.trans hsusp) hl
      (by rw [hhost]; exact hs ▸ hidle)

/-- The caller of an invocation goes on where it made the call. -/
theorem Waits.nested {s : Snapshot} (hw : Waits P c.host s rest)
    (hr : Restored P vm.snapshot s)
    (htop : (∀ e es, rest = e :: es → e.kind = .native ∧ e.pc = .loop) ∨
      (P → vm.snapshot = s))
    (hk : vm.suspended = c.vm.suspended) : Nested P { c with vm := vm, active := rest } := by
  have hhost : ({ c with vm := vm, active := rest } : Config).host = c.host := by
    simp only [Config.host, hk]
  cases rest with
  | nil =>
    refine .host rfl ?_
    rw [hhost]
    exact Idle.restored hw hr
  | cons e es =>
    obtain ⟨hruns, hbelow⟩ := hw
    refine .runs e es rfl (hruns.restored hr fun hpc hP => ?_) (hhost ▸ hbelow)
    rcases htop with hnative | htop
    · rw [(hnative e es rfl).2] at hpc
      cases hpc
    · exact htop hP

/-- The `Execute` that made a call instruction goes on. -/
theorem Waits.executes {s : Snapshot} {e : Activation} {es : List Activation}
    (hw : Waits P c.host s (e :: es)) (hkind : e.kind = .execute) (hpc : e.pc = .loop)
    (hr : Restored P vm.snapshot s) (hk : vm.suspended = c.vm.suspended) :
    Executes P { c with vm := vm, active := e :: es } e es := by
  have hhost : ({ c with vm := vm, active := e :: es } : Config).host = c.host := by
    simp only [Config.host, hk]
  obtain ⟨hruns, hbelow⟩ := hw
  cases hruns with
  | script _ hscript hn =>
    exact ⟨rfl, hkind, .inl hpc, hscript.restored hr, hr.nnativecalls.trans hn, hhost ▸ hbelow⟩
  | native hnative => rw [hnative] at hkind; cases hkind
  | failed _ hfailed => rw [hfailed] at hpc; cases hpc

/-- The `Execute` that suspends the VM has no other invocation below it. -/
theorem Executes.alone {e : Activation} {es : List Activation} (h : Executes P c e es)
    (hnn : c.vm.nnativecalls = 1) : es = [] := by
  have hentry : e.entry.nnativecalls = 0 := by
    have := h.nnativecalls
    omega
  obtain ⟨-, hwaits⟩ := h.below
  cases es with
  | nil => rfl
  | cons b bs =>
    obtain ⟨hruns, -⟩ := hwaits
    have hb : e.before.nnativecalls = b.entry.nnativecalls + 1 := by
      cases hruns with
      | script _ _ hn => exact hn
      | native _ _ _ hn => exact hn
      | failed _ _ _ _ hn => exact hn
    have : e.before.nnativecalls = e.entry.nnativecalls := by
      unfold Activation.before Cont.before
      split <;> rfl
    omega

theorem Executes.suspend {e : Activation} {es : List Activation} (h : Executes P c e es)
    (hnn : c.vm.nnativecalls = 1) (hsusp : c.vm.suspended = false) (arg0 : BitVec 8)
    (clo : SQObject) : Nested P (c.suspend e es arg0 clo) := by
  have hentry : e.entry.nnativecalls = 0 := by
    have := h.nnativecalls
    omega
  obtain rfl := h.alone hnn
  obtain ⟨hlinked, hwaits⟩ := h.below
  have hidle : Idle P c.host e.before := hwaits
  have hempty : Above e.entry.callsstack [] := by
    have h0 : Above e.before.callsstack [] := hidle.idle hsusp
    have h1 : e.before.callsstack = e.entry.callsstack := by
      unfold Activation.before Cont.before
      split <;> rfl
    exact h1 ▸ h0
  refine .suspended { e with pc := .done true clo false } clo rfl rfl rfl hlinked
    ⟨?_, nofun, fun _ => ⟨?_, hempty, hentry⟩⟩
  · change c.vm.nnativecalls - 1 = 0
    omega
  · obtain ⟨inner, f, hb, hroot⟩ := h.script
    exact ⟨inner, f, ⟨hb.callsstack, hb.inner_root, fun hP =>
      ⟨(hb.positions hP).stackbase, (hb.positions hP).prevtop, (hb.positions hP).etraps⟩⟩,
      hroot⟩

end Squirt.Machine
