import Squirt.HookFrames
import Squirt.RootFrames

/-!
# Script frames and the calls of the debug hook

Each frame belongs to an invocation: an `Execute` owns frames of script functions, a native
function owns one frame. A step of `Execute` then changes the number of script functions on
the call stack by what it reports to the hook.
-/

namespace Squirt

/-- The frame of a function of the script. -/
def CallInfo.script (ci : CallInfo) : Bool :=
  match ci.closure with
  | .closure _ => true
  | _ => false

namespace Machine

open SQVM (HasRoom NativeFits accepts CalledFrame CallStarted CallResumed)

/-- The activations of functions of the script, those that made a tail call counted. -/
def scriptCalls (frames : List CallInfo) : ℕ :=
  ((frames.filter CallInfo.script).map CallInfo.ncalls).sum

theorem scriptCalls_cons {f : CallInfo} {frames : List CallInfo} (h : f.script = true) :
    scriptCalls (f :: frames) = f.ncalls + scriptCalls frames := by
  simp [scriptCalls, h]

theorem scriptCalls_cons_native {f : CallInfo} {frames : List CallInfo} (h : f.script = false) :
    scriptCalls (f :: frames) = scriptCalls frames := by
  simp [scriptCalls, h]

/-- A frame of a function of the script. Before it makes a tail call, a generator function
has its frame to itself. -/
def ScriptFrame (heap : Heap) (f : CallInfo) : Prop :=
  ∃ r, f.closure = .closure r ∧ ((heap.closure r).function.bgenerator = true → f.ncalls = 1)

theorem ScriptFrame.script {heap : Heap} {f : CallInfo} (h : ScriptFrame heap f) :
    f.script = true := by
  obtain ⟨r, hr, -⟩ := h
  simp [CallInfo.script, hr]

/-- The frame that a suspended generator keeps. -/
def SavedCall (heap : Heap) (ci : CallInfo) : Prop :=
  ∃ r, CalledFrame ci r ∧ (heap.closure r).function.bgenerator = true

def SavedCalls (heap : Heap) (generators : List SQGenerator) : Prop :=
  ∀ gen ∈ generators, gen.state = .suspended → SavedCall heap gen.ci

theorem SavedCalls.set {heap : Heap} {generators : List SQGenerator}
    (h : SavedCalls heap generators)
    (g : ℕ) {gen : SQGenerator} (hgen : gen.state = .suspended → SavedCall heap gen.ci) :
    SavedCalls heap (generators.set g gen) := by
  intro gen' hmem
  rcases List.mem_or_eq_of_mem_set hmem with hmem | rfl
  · exact h gen' hmem
  · exact hgen

theorem SavedCalls.append {heap : Heap} {generators : List SQGenerator}
    (h : SavedCalls heap generators) {gen : SQGenerator}
    (hgen : gen.state = .suspended → SavedCall heap gen.ci) :
    SavedCalls heap (generators ++ [gen]) := by
  intro gen' hmem
  rw [List.mem_append, List.mem_singleton] at hmem
  rcases hmem with hmem | rfl
  · exact h gen' hmem
  · exact hgen

/-- The frames an invocation has on the call stack. -/
inductive Owns (heap : Heap) (frames : List CallInfo) (a : Activation) : Prop
  | script (own : List CallInfo) : a.entered = true → (∀ f ∈ own, ScriptFrame heap f) →
      frames = own ++ a.entry.callsstack → Owns heap frames a
  | native (f : CallInfo) : a.kind = .native → a.pc = .loop → f.script = false →
      frames = f :: a.entry.callsstack → Owns heap frames a
  | none : a.entered = false → ¬ (a.kind = .native ∧ a.pc = .loop) →
      frames = a.entry.callsstack → Owns heap frames a

/-- The call stack consists of the frames of the invocations. Those of a suspended VM have
no invocation. -/
def Owned (heap : Heap) (suspended : Bool) : List CallInfo → List Activation → Prop
  | frames, [] => (∀ f ∈ frames, ScriptFrame heap f) ∧ (suspended = false → frames = [])
  | frames, a :: rest => Owns heap frames a ∧ Owned heap suspended a.entry.callsstack rest

/-- How the frames belong to the invocations. -/
inductive Placed (c : Config) : Prop
  | owned : Owned c.heap c.vm.suspended c.vm.callsstack c.active → Placed c
  /-- the only invocation returns because the VM is suspended -/
  | suspended (a : Activation) (res : SQObject) : c.active = [a] → a.pc = .done true res false →
      c.vm.suspended = true → (∀ f ∈ c.vm.callsstack, ScriptFrame c.heap f) → Placed c

/-- The invariant of every run in which the frames are entered. -/
structure FramesOk (c : Config) : Prop where
  placed : Placed c
  generators : SavedCalls c.heap c.vm.generators
  entry : c.vm.suspended = true → c.suspendedEntry.callsstack = []

/-- The call stacks the active invocations have found. -/
def Config.found (c : Config) : List (List CallInfo) := c.active.map (·.entry.callsstack)

/-- What a step does to the active invocations. -/
inductive Turn (c c' : Config) : Prop
  | same : c'.found = c.found → Turn c c'
  | called (frames : List CallInfo) : c'.found = frames :: c.found → Turn c c'
  | returned (frames : List CallInfo) : c.found = frames :: c'.found →
      (c'.active ≠ [] → c'.vm.callsstack = frames) → Turn c c'

/-- A step reports the script functions that it enters and leaves. -/
structure Counts (c c' : Config) (calls : List HookType) : Prop where
  ok : FramesOk c'
  balance : scriptCalls c'.vm.callsstack + calls.count .r =
    scriptCalls c.vm.callsstack + calls.count .c
  turn : Turn c c'

/-- The frame that a call enters fits on the stack. -/
def EnterFits : CallCondition := fun c vm closure nargs stackbase =>
  match closure with
  | .closure r =>
    let func := (c.heap.closure r).function
    accepts func nargs = true → vm.HasRoom (stackbase + func.stacksize)
  | .nativeclosure r => vm.NativeFits (c.heap.nativeclosure r) nargs stackbase
  | _ => True

/-- The same for `_OP_CALL`, which may call a constructor. -/
def OpCallFits (c : Config) (arg0 : BitVec 8) (arg1 arg2 arg3 : ℕ) : Prop :=
  let stkbase := c.vm.stackbase + arg2
  match c.vm.stk arg1 with
  | some (.clazz r) => ∀ vm vm', c.vm.createInstance.1.deliver arg0 c.vm.createInstance.2 = some vm →
      vm.setSlot stkbase c.vm.createInstance.2 = some vm' →
      EnterFits c vm' (c.heap.constructor r) arg3 stkbase
  | some closure => EnterFits c c.vm closure arg3 stkbase
  | none => True

/-- The same for `_OP_TAILCALL`, which enters the frame anew at its own base. -/
def OpTailcallFits (c : Config) (arg0 : BitVec 8) (arg1 arg2 arg3 : ℕ) : Prop :=
  match c.vm.stk arg1 with
  | some (.closure r) =>
    if (c.heap.closure r).function.bgenerator then OpCallFits c arg0 arg1 arg2 arg3
    else EnterFits c c.vm (.closure r) arg3 c.vm.stackbase
  | _ => OpCallFits c arg0 arg1 arg2 arg3

/-- The frame of a generator that can be resumed fits on the stack. -/
def ResumeFits (vm : SQVM) (o : Option SQObject) : Prop :=
  ∀ g gen, o = some (.generator g) → vm.generators[g]? = some gen → gen.state = .suspended →
    vm.HasRoom (vm.top + gen.stack.length)

/-- Every `EnterFrame` of the step succeeds. -/
def GetsFrames (c : Config) (e : Event) : Prop :=
  CallsMeet ClosureFits c e ∧
  match e with
  | .instr (.call arg0 arg1 arg2 arg3) => OpCallFits c arg0 arg1 arg2 arg3
  | .instr (.tailcall arg0 arg1 arg2 arg3) => OpTailcallFits c arg0 arg1 arg2 arg3
  | .instr (.resume _ arg1) => ResumeFits c.vm (c.vm.stk arg1)
  | .instr (.foreach arg0 _) => ResumeFits c.vm (c.vm.stk arg0)
  | _ => True

/-- A closure is one of a generator function in both heaps or in none. -/
def SameKind (heap heap' : Heap) (closure : SQObject) : Prop :=
  ∀ r, closure = .closure r →
    (heap'.closure r).function.bgenerator = (heap.closure r).function.bgenerator

/-- What the compiler and the other VMs ensure: `_OP_YIELD` is an instruction of generator
functions only, a closure that runs or that a generator keeps has its function for good, and
a suspended generator keeps the frame of a generator function. -/
def ByCompiler (c : Config) : Event → Prop
  | .instr (.yield _ _ _) => ∀ ci r, c.vm.callsstack.head? = some ci → ci.closure = .closure r →
      (c.heap.closure r).function.bgenerator = true
  | .objects heap => (∀ f ∈ c.vm.callsstack, SameKind c.heap heap f.closure) ∧
      ∀ gen ∈ c.vm.generators, gen.state = .suspended → SameKind c.heap heap gen.ci.closure
  | .foreign _ gen => gen.state = .suspended → SavedCall c.heap gen.ci
  | _ => True

section Running

variable {c c' : Config} {a : Activation} {rest : List Activation} {vm vm' : SQVM}
  {ci : CallInfo} {own : List CallInfo}

/-- The topmost invocation is an `Execute` with `ci` as the current frame. -/
structure Running (c : Config) (a : Activation) (rest : List Activation) (ci : CallInfo)
    (own : List CallInfo) : Prop where
  active : c.active = a :: rest
  kind : a.kind = .execute
  entered : a.entered = true
  frames : c.vm.callsstack = ci :: (own ++ a.entry.callsstack)
  script : ∀ f ∈ ci :: own, ScriptFrame c.heap f
  root : ci.root = true ↔ own = []
  below : Owned c.heap c.vm.suspended a.entry.callsstack rest
  generators : SavedCalls c.heap c.vm.generators
  entry : c.vm.suspended = true → c.suspendedEntry.callsstack = []

theorem FramesOk.running (h : FramesOk c) (hx : Executes False c a rest) :
    ∃ ci own, Running c a rest ci own := by
  obtain ⟨ci, fs, hcs⟩ := hx.script.exists_head
  cases h.placed with
  | suspended a' res hact hdone =>
    obtain ⟨rfl, -⟩ := List.cons.inj (hact.symm.trans hx.active)
    have hent := hx.entered
    simp [Activation.entered, hdone] at hent
  | owned howned =>
    rw [hx.active] at howned
    obtain ⟨howns, hbelow⟩ := howned
    cases howns with
    | native _ hkind => rw [hx.kind] at hkind; cases hkind
    | none hent => rw [hx.entered] at hent; cases hent
    | script own _ hscript hframes =>
      have hroot := hx.root_iff hcs
      cases own with
      | nil =>
        -- the entry frame is there
        obtain ⟨inner, e, hb, -⟩ := hx.script
        have hlen := congrArg List.length (hframes.symm.trans hb.callsstack)
        simp only [List.nil_append, List.length_append, List.length_cons] at hlen
        omega
      | cons f own =>
        obtain ⟨rfl, rfl⟩ := List.cons.inj (hcs.symm.trans hframes)
        refine ⟨ci, own, hx.active, hx.kind, hx.entered, hframes, hscript, hroot.trans ?_, hbelow,
          h.generators, h.entry⟩
        rw [Activation.atEntry, hframes]
        simp

/-- The invocation goes on with other frames of its own. -/
theorem Running.goto (h : Running c a rest ci own) (own' : List CallInfo) {a' : Activation}
    {pc : Pc} {calls : List HookType} (hcs : vm.callsstack = own' ++ a.entry.callsstack)
    (hscript : ∀ f ∈ own', ScriptFrame c.heap f) (hgens : SavedCalls c.heap vm.generators)
    (hsusp : vm.suspended = c.vm.suspended) (hkind : a'.kind = a.kind)
    (hentry : a'.entry = a.entry) (hpc : pc = .loop ∨ ∃ err top, pc = .trap err top)
    (hbalance : scriptCalls vm.callsstack + calls.count .r =
      scriptCalls c.vm.callsstack + calls.count .c) :
    Counts c (c.goto vm a' rest pc) calls := by
  have hent : ({ a' with pc := pc } : Activation).entered = true := by
    rcases hpc with rfl | ⟨err, top, rfl⟩
    · simp [Activation.entered, hkind, h.kind]
    · simp [Activation.entered, hkind, h.kind]
  refine ⟨⟨.owned ⟨.script own' hent hscript ?_, ?_⟩, hgens, fun hs => ?_⟩, hbalance, .same ?_⟩
  · exact hcs.trans (by rw [← hentry])
  · have hbelow := h.below
    rw [← hsusp, ← hentry] at hbelow
    exact hbelow
  · exact h.entry (hsusp.symm.trans hs)
  · simp [Config.found, Config.goto, h.active, hentry]

/-- The invocation has left its entry frame. -/
theorem Running.finish (h : Running c a rest ci own) {a' : Activation} {ok : Bool} {res : SQObject}
    {calls : List HookType} (hcs : vm.callsstack = a.entry.callsstack)
    (hgens : SavedCalls c.heap vm.generators) (hsusp : vm.suspended = c.vm.suspended)
    (hentry : a'.entry = a.entry)
    (hbalance : scriptCalls vm.callsstack + calls.count .r =
      scriptCalls c.vm.callsstack + calls.count .c) :
    Counts c (c.finish vm a' rest ok res) calls := by
  refine ⟨⟨.owned ⟨.none ?_ ?_ ?_, ?_⟩, hgens, fun hs => ?_⟩, hbalance, .same ?_⟩
  · simp [Activation.entered]
  · simp
  · exact hcs.trans (by rw [← hentry])
  · have hbelow := h.below
    rw [← hsusp, ← hentry] at hbelow
    exact hbelow
  · exact h.entry (hsusp.symm.trans hs)
  · simp [Config.found, Config.finish, h.active, hentry]

/-- The invocation goes on in its loop or in the loop of `exception_trap`, with the frames
it had. -/
theorem Running.stays (h : Running c a rest ci own) {a' : Activation} {pc : Pc}
    (hcs : vm.callsstack = c.vm.callsstack) (hgens : vm.generators = c.vm.generators)
    (hsusp : vm.suspended = c.vm.suspended) (hkind : a'.kind = a.kind)
    (hentry : a'.entry = a.entry) (hpc : pc = .loop ∨ ∃ err top, pc = .trap err top) :
    Counts c (c.goto vm a' rest pc) [] :=
  h.goto (ci :: own) (hcs.trans h.frames) h.script (hgens ▸ h.generators) hsusp hkind hentry hpc
    (congrArg (scriptCalls · + 0) hcs)

theorem Running.throw (h : Running c a rest ci own) (hcs : vm.callsstack = c.vm.callsstack)
    (hgens : vm.generators = c.vm.generators) (hsusp : vm.suspended = c.vm.suspended) :
    Counts c (c.throw vm a rest) [] :=
  h.stays hcs hgens hsusp rfl rfl (.inr ⟨_, _, rfl⟩)

/-- The topmost frame changes in what does not matter. -/
theorem Running.setTop (h : Running c a rest ci own) {ci' : CallInfo} {a' : Activation} {pc : Pc}
    (hcs : vm.callsstack = ci' :: (own ++ a.entry.callsstack)) (hclo : ci'.closure = ci.closure)
    (hn : ci'.ncalls = ci.ncalls) (hgens : vm.generators = c.vm.generators)
    (hsusp : vm.suspended = c.vm.suspended) (hkind : a'.kind = a.kind)
    (hentry : a'.entry = a.entry) (hpc : pc = .loop ∨ ∃ err top, pc = .trap err top) :
    Counts c (c.goto vm a' rest pc) [] := by
  have hci : ScriptFrame c.heap ci := h.script ci (.head _)
  have hci' : ScriptFrame c.heap ci' := by
    obtain ⟨r, hr, hone⟩ := hci
    exact ⟨r, hclo.trans hr, fun hgen => hn.trans (hone hgen)⟩
  have hscript : ∀ f ∈ ci' :: own, ScriptFrame c.heap f := by
    intro f hf
    cases hf with
    | head => exact hci'
    | tail _ hf => exact h.script f (.tail _ hf)
  refine h.goto (ci' :: own) hcs hscript (hgens ▸ h.generators) hsusp hkind hentry hpc ?_
  change scriptCalls vm.callsstack + 0 = scriptCalls c.vm.callsstack + 0
  rw [hcs, h.frames, scriptCalls_cons hci.script, scriptCalls_cons hci'.script, hn]

/-- One more frame of a script function. -/
theorem Running.push (h : Running c a rest ci own) {f : CallInfo} {a' : Activation}
    (hcs : vm.callsstack = f :: c.vm.callsstack) (hf : ScriptFrame c.heap f) (hn : f.ncalls = 1)
    (hgens : SavedCalls c.heap vm.generators) (hsusp : vm.suspended = c.vm.suspended)
    (hkind : a'.kind = a.kind) (hentry : a'.entry = a.entry) :
    Counts c (c.goto vm a' rest .loop) [.c] := by
  have hscript : ∀ g ∈ f :: ci :: own, ScriptFrame c.heap g := by
    intro g hg
    cases hg with
    | head => exact hf
    | tail _ hg => exact h.script g hg
  refine h.goto (f :: ci :: own) (hcs.trans (by rw [h.frames]; rfl)) hscript hgens hsusp hkind
    hentry (.inl rfl) ?_
  change scriptCalls vm.callsstack + 0 = scriptCalls c.vm.callsstack + 1
  rw [hcs, scriptCalls_cons hf.script, hn]
  omega

/-- What `StartCall` has done in the loop of `Execute`. -/
theorem Running.startCall (h : Running c a rest ci own) {r args : ℕ} {target stackbase : ℤ}
    {ok : Bool} (hst : SQVM.Stored c.vm vm)
    (hfits : EnterFits c vm (.closure r) args stackbase)
    (hs : vm.startCall r (c.heap.closure r) target args stackbase false = some (vm', ok)) :
    Counts c (if ok then c.goto vm' a rest .loop else c.throw vm' a rest)
      (vm.startCallHooks r (c.heap.closure r) target args stackbase false) := by
  have hsusp := (SQVM.startCall_spec hs).1.suspended.trans hst.stays.suspended
  have hstarted := SQVM.startCall_frames hs hfits
  generalize vm.startCallHooks r (c.heap.closure r) target args stackbase false = calls
    at hstarted ⊢
  cases hstarted with
  | refused hcs hgens =>
    exact h.throw (hcs.trans hst.callsstack) (hgens.trans hst.generators) hsusp
  | entered f hf hcs hgens =>
    have hgens' : SavedCalls c.heap vm'.generators := by
      rw [hgens, hst.generators]
      exact h.generators
    exact h.push (hcs.trans (by rw [hst.callsstack])) ⟨r, hf.closure, fun _ => hf.ncalls⟩
      hf.ncalls hgens' hsusp rfl rfl
  | created gen hgen hcs hgens _ hfunc =>
    have hgens' : SavedCalls c.heap vm'.generators := by
      rw [hgens, hst.generators]
      exact h.generators.append fun _ => ⟨r, hgen, hfunc⟩
    have hcs' := hcs.trans hst.callsstack
    exact h.goto (ci :: own) (hcs'.trans h.frames) h.script hgens' hsusp rfl rfl (.inl rfl)
      (congrArg (scriptCalls · + 1) hcs')

/-- The current frame is left through `Return`, or by an exception. -/
theorem Running.leave (h : Running c a rest ci own) {ok : Bool} {res : SQObject} {traps : ℤ}
    {pc : Pc} (hcs : vm.callsstack = own ++ a.entry.callsstack)
    (hgens : SavedCalls c.heap vm.generators) (hsusp : vm.suspended = c.vm.suspended)
    (hpc : pc = .loop ∨ ∃ err top, pc = .trap err top) :
    Counts c (if ci.root then c.finish vm { a with traps := traps } rest ok res
      else c.goto vm { a with traps := traps } rest pc) (List.replicate ci.ncalls .r) := by
  have hbalance : scriptCalls vm.callsstack + (List.replicate ci.ncalls HookType.r).count .r =
      scriptCalls c.vm.callsstack + (List.replicate ci.ncalls HookType.r).count .c := by
    rw [hcs, h.frames, scriptCalls_cons (h.script ci (.head _)).script, List.count_replicate,
      List.count_replicate]
    simp
    omega
  cases hroot : ci.root with
  | true =>
    have hown : own = [] := h.root.mp hroot
    exact h.finish (hcs.trans (by rw [hown]; rfl)) hgens hsusp rfl hbalance
  | false =>
    exact h.goto own hcs (fun f hf => h.script f (.tail _ hf)) hgens hsusp rfl rfl hpc hbalance

end Running
end Machine
end Squirt
