import Squirt.VmNestingRuns

/-!
# Root frames are entry frames

The frames with `_root` set are the entry frames of the invocations of `Execute`, so that
`Return` ends an invocation when its own entry frame is left. `KeepsRoots` is what this
takes.
-/

namespace Squirt.Machine

open GuardedRuns

/-- The positions of the frames with `_root`, counted from the first frame. -/
def rootFrames : List CallInfo → List ℕ
  | [] => []
  | ci :: rest => if ci.root then rest.length :: rootFrames rest else rootFrames rest

/-- The positions of the entry frames of the invocations of `Execute` that are in their
loops. -/
def entries (active : List Activation) : List ℕ :=
  (active.filter (·.entered)).map (·.entry.callsstack.length)

/-- The entry frame of an invocation that is suspended. -/
def Host.entries (h : Host) : List ℕ := if h.suspended then [h.entry.callsstack.length] else []

/-- The positions of the entry frames of all invocations; one that is suspended is still
there. -/
def Config.entryFrames (c : Config) : List ℕ := entries c.active ++ c.host.entries

/-- The topmost invocation returns to its caller. -/
def Config.returns (c : Config) : Bool :=
  match c.active with
  | { pc := .done _ _ _, .. } :: _ => true
  | _ => false

/-- `_OP_RETURN` or `_OP_YIELD` -/
def Instr.leaves : Instr → Prop
  | .ret _ _ | .yield _ _ _ => True
  | _ => False

/-- The current frame is the entry frame of `a`. -/
def Activation.atEntry (a : Activation) (c : Config) : Prop :=
  c.vm.callsstack.length = a.entry.callsstack.length + 1

variable {P : Prop} {c c' : Config} {a : Activation} {rest : List Activation} {s entry : Snapshot}

theorem rootFrames_above {frames base : List CallInfo} (h : Above frames base) :
    rootFrames frames = rootFrames base := by
  obtain ⟨left, rfl, hroot⟩ := h
  induction left with
  | nil => rfl
  | cons f left ih =>
    have hf : f.root = false := hroot f (.head _)
    simp only [List.cons_append, rootFrames, hf, Bool.false_eq_true, if_false]
    exact ih fun g hg => hroot g (.tail _ hg)

theorem Script.rootFrames (h : Script P s entry) :
    rootFrames s.callsstack = entry.callsstack.length :: rootFrames entry.callsstack := by
  obtain ⟨inner, e, hb, he⟩ := h
  rw [rootFrames_above ⟨inner, hb.callsstack, hb.inner_root⟩, Machine.rootFrames, if_pos he]

theorem Native.rootFrames (h : Native P s entry) :
    rootFrames s.callsstack = rootFrames entry.callsstack := by
  obtain ⟨f, fs, hcs, hroot, habove⟩ := h.frame
  rw [hcs]
  exact rootFrames_above (habove.cons hroot)

private theorem entered_native (hkind : a.kind = .native) : a.entered = false := by
  simp [Activation.entered, hkind]

theorem entries_cons (a : Activation) (rest : List Activation) :
    entries (a :: rest) =
      if a.entered then a.entry.callsstack.length :: entries rest else entries rest := by
  unfold entries
  split_ifs with h
  · rw [List.filter_cons_of_pos h, List.map_cons]
  · rw [List.filter_cons_of_neg h]

/-- An invocation that runs adds its entry frame. -/
theorem Runs.rootFrames (h : Runs P s a) {below : List ℕ}
    (hbelow : Machine.rootFrames a.entry.callsstack = entries rest ++ below) :
    Machine.rootFrames s.callsstack = entries (a :: rest) ++ below := by
  rw [entries_cons]
  cases h with
  | script hent hscript => rw [if_pos hent, hscript.rootFrames, hbelow, List.cons_append]
  | native hkind _ hnative =>
    rw [entered_native hkind, if_neg Bool.false_ne_true, hnative.rootFrames, hbelow]
  | failed hkind hpc habove =>
    have hent : a.entered = false := by simp [Activation.entered, hkind, hpc]
    rw [hent, if_neg Bool.false_ne_true, rootFrames_above habove, hbelow]

theorem Idle.rootFrames {h : Host} (hi : Idle P h s) :
    Machine.rootFrames s.callsstack = h.entries := by
  unfold Host.entries
  split_ifs with hs
  · obtain ⟨hscript, hentry, -⟩ := hi.suspended hs
    rw [hscript.rootFrames, rootFrames_above hentry]
    rfl
  · exact rootFrames_above (hi.idle (Bool.eq_false_iff.mpr hs))

theorem before_callsstack (a : Activation) : a.before.callsstack = a.entry.callsstack := by
  unfold Activation.before Cont.before
  split <;> rfl

theorem Waits.rootFrames {h : Host} (hw : Waits P h s rest) :
    Machine.rootFrames s.callsstack = entries rest ++ h.entries := by
  induction rest generalizing s with
  | nil => exact Idle.rootFrames hw
  | cons a rest ih =>
    obtain ⟨hruns, -, hw⟩ := hw
    have hbelow := ih hw
    rw [before_callsstack] at hbelow
    exact hruns.rootFrames hbelow

/-- Where the frames nest in the invocations, the roots are the entry frames. -/
theorem Nested.rootFrames (h : Nested P c) :
    Machine.rootFrames c.vm.callsstack = c.entryFrames := by
  cases h with
  | host hnil hidle =>
    rw [Config.entryFrames, hnil]
    exact hidle.rootFrames
  | runs a rest hact hruns hbelow =>
    rw [Config.entryFrames, hact]
    refine hruns.rootFrames ?_
    rw [← before_callsstack]
    exact hbelow.2.rootFrames
  | back a rest ok res suspend hact hpc habove _ _ _ hbelow =>
    have hent : a.entered = false := by simp [Activation.entered, hpc]
    rw [Config.entryFrames, hact, entries_cons, hent, if_neg Bool.false_ne_true,
      rootFrames_above habove, ← before_callsstack]
    exact hbelow.2.rootFrames
  | suspended a res hact hpc hsusp _ hidle =>
    have hent : a.entered = false := by simp [Activation.entered, hpc]
    rw [Config.entryFrames, hact, entries_cons, hent, if_neg Bool.false_ne_true]
    exact hidle.rootFrames

/-- The current frame of an `Execute` is a root when it is its entry frame. -/
theorem Executes.root_iff (h : Executes P c a rest) {ci : CallInfo} {fs : List CallInfo}
    (hcs : c.vm.callsstack = ci :: fs) : ci.root = true ↔ a.atEntry c := by
  obtain ⟨inner, e, hb, he⟩ := h.script
  have hcs' : ci :: fs = inner ++ e :: a.entry.callsstack := hcs.symm.trans hb.callsstack
  unfold Activation.atEntry
  rw [hcs]
  cases inner with
  | nil =>
    obtain ⟨rfl, rfl⟩ := List.cons.inj hcs'
    simp [he]
  | cons f inner =>
    obtain ⟨hci, hfs⟩ := List.cons.inj hcs'
    have hroot : ci.root = false := hci ▸ hb.inner_root f (.head _)
    have hlen : fs.length = inner.length + (a.entry.callsstack.length + 1) := by
      rw [hfs]
      exact List.length_append
    rw [hroot, List.length_cons]
    constructor
    · nofun
    · omega

/-- `Return` ends an invocation exactly when a root is left. -/
theorem returns_returned {vm : SQVM} {b : Bool} {res : SQObject} :
    (c.returned a rest (vm, b, res)).returns = b := by
  unfold Config.returned
  cases b with
  | true => rfl
  | false => rfl

/-- A frame is left and it is the entry frame of `a`. -/
def LeavesEntry (c c' : Config) (a : Activation) : Prop :=
  c'.vm.callsstack.length < c.vm.callsstack.length ∧ a.atEntry c

/-- What `Return` does to the call stack. -/
theorem Executes.returned_iff (h : Executes P c a rest) {vm vm' : SQVM} {ci : CallInfo}
    {fs : List CallInfo} {arg0 arg1 : ℤ} {b : Bool} {res : SQObject} {a' : Activation}
    (hcs : c.vm.callsstack = ci :: fs) (hcs' : vm.callsstack = ci :: fs)
    (hret : vm.Return arg0 arg1 = some (vm', b, res)) :
    (c.returned a' rest (vm', b, res)).returns = true ↔
      LeavesEntry c (c.returned a' rest (vm', b, res)) a := by
  obtain ⟨hb, hleave, -⟩ := SQVM.Return_spec hcs' hret
  have hfs : vm'.callsstack = fs := congrArg Snapshot.callsstack hleave
  have hvm : (c.returned a' rest (vm', b, res)).vm.callsstack = fs := by
    unfold Config.returned
    cases b with
    | true => exact hfs
    | false => exact hfs
  rw [returns_returned, LeavesEntry, hvm, hb, h.root_iff hcs, hcs]
  simp

private theorem Executes.leaves_iff (h : Executes P c a rest) {i : Instr} (hi : i.leaves)
    (hs : c.instr a rest i = some c') : c'.returns = true ↔ LeavesEntry c c' a := by
  obtain ⟨ci, fs, hcs⟩ := h.script.exists_head
  cases i with
  | ret arg0 arg1 =>
    obtain ⟨⟨vm, b, res⟩, hret, rfl⟩ := Option.map_eq_some_iff.mp hs
    have hcs' : c.vm.killCi.callsstack = ci :: fs :=
      (congrArg Snapshot.callsstack (killCi_spec c.vm).1).trans hcs
    exact h.returned_iff hcs hcs' hret
  | yield arg0 arg1 arg2 =>
    -- a yield that fails leaves no frame
    have hfails : ∀ vm : SQVM, vm.callsstack = c.vm.callsstack →
        ((c.throw vm a rest).returns = true ↔ LeavesEntry c (c.throw vm a rest) a) := by
      intro vm hvm
      have hthrow : (c.throw vm a rest).vm.callsstack = c.vm.callsstack := hvm
      rw [LeavesEntry, hthrow]
      simp [Config.throw, Config.goto, Config.returns]
    simp only [Config.instr, Config.opYield] at hs
    split at hs
    · rename_i g etraps _ fs' hcs₀
      obtain ⟨temp, _, hs⟩ := Option.bind_eq_some_iff.mp hs
      obtain ⟨⟨vm₁, ok⟩, hyield, hs⟩ := Option.bind_eq_some_iff.mp hs
      obtain ⟨hs₁, -⟩ := SQVM.yield_spec hcs₀ hyield
      have hcs₁ : vm₁.callsstack = c.vm.callsstack := by
        cases ok with
        | true => exact congrArg Snapshot.callsstack hs₁
        | false => exact congrArg Snapshot.callsstack hs₁
      cases ok with
      | false =>
        cases hs
        exact hfails vm₁ hcs₁
      | true =>
        obtain ⟨vm₂, hput, hs⟩ := Option.bind_eq_some_iff.mp hs
        obtain ⟨⟨vm₃, b, res⟩, hret, rfl⟩ := Option.map_eq_some_iff.mp hs
        have hst : SQVM.Stored vm₁ vm₂ := by
          split_ifs at hput
          · exact SQVM.stored_setSlot hput
          · exact Option.some.inj hput ▸ .refl vm₁
        exact h.returned_iff hcs₀ (hst.callsstack.trans (hcs₁.trans hcs₀)) hret
    · cases hs
      exact hfails _ rfl
  | _ => exact hi.elim

/-- The state an instruction is executed in. -/
theorem step_instr {i : Instr} (hact : c.active = a :: rest) (hkind : a.kind = .execute)
    (hpc : a.pc = .loop) : c.step (.instr i) = c.instr a rest i := by
  simp only [Config.step, hact, hkind, hpc]

/-- The nesting that `_root` stands for. -/
structure RootsAreEntries (c : Config) : Prop where
  roots : rootFrames c.vm.callsstack = c.entryFrames
  leaves : ∀ a rest i c', c.active = a :: rest → a.kind = .execute → a.pc = .loop → i.leaves →
    c.step (.instr i) = some c' → (c'.returns = true ↔ LeavesEntry c c' a)

private theorem Good.rootsAreEntries (h : Good P c) : RootsAreEntries c where
  roots := h.nested.rootFrames
  leaves a rest i c' hact hkind hpc hi hs := by
    rw [step_instr hact hkind hpc] at hs
    exact (h.nested.executes hact hkind (.inl hpc)).leaves_iff hi hs

/-- In every run that keeps the roots, the root frames are the entry frames. -/
theorem roots_are_entry_frames {stacksize : ℕ} {callstackdata : ℕ → ℕ} {heap : Heap}
    (h : Reach Config.step KeepsRoots (Config.init stacksize callstackdata heap) c) :
    RootsAreEntries c := by
  have hgood : Good False c := by
    refine h.invariant ?_ (good_init False stacksize callstackdata heap)
    intro c e c' hc hr hs
    exact hc.step hr nofun hs
  exact hgood.rootsAreEntries

/-- A generator function, and a function that resumes the generator it is given. -/
def resumeHeap : Heap where
  closure r :=
    if r = 0 then ⟨⟨1, 3, 0, false, true⟩, [], none, List.length_nil⟩
    else ⟨⟨2, 4, 0, false, false⟩, [], none, List.length_nil⟩
  nativeclosure _ := ⟨0, [], [], none⟩
  constructor _ := .null
  metacall _ := .null

/-- The host makes a generator and calls the function that resumes it. -/
def scriptResumes : List Event :=
  [.api (.push (.closure 0)), .api (.push .null), .api (.call 1 true), .cont,
    .api (.push (.closure 1)), .api (.push .null), .api (.push (.generator 0)),
    .api (.call 2 false), .instr (.resume 2 1)]

/-- Before the function resumes the generator, the host does. -/
def hostResumes : List Event :=
  [.api (.push (.closure 0)), .api (.push .null), .api (.call 1 true), .cont,
    .api (.resume false), .instr (.yield 255 0 2), .cont,
    .api (.push (.closure 1)), .api (.push .null), .api (.push (.generator 0)),
    .api (.call 2 false), .instr (.resume 2 1)]

private theorem scriptResumes_keepsRoots :
    Guarded Config.step KeepsRoots (Config.init 64 id resumeHeap) scriptResumes := by
  refine ⟨⟨trivial, trivial⟩, fun c hc => ?_⟩
  cases hc
  refine ⟨⟨trivial, trivial⟩, fun c hc => ?_⟩
  cases hc
  refine ⟨⟨fun clo hclo => ?_, trivial⟩, fun c hc => ?_⟩
  · -- no caller is on the call stack when the generator is made
    cases hclo
    intro _ _ _ _ hne
    exact (hne rfl).elim
  cases hc
  refine ⟨⟨trivial, trivial⟩, fun c hc => ?_⟩
  cases hc
  refine ⟨⟨trivial, trivial⟩, fun c hc => ?_⟩
  cases hc
  refine ⟨⟨trivial, trivial⟩, fun c hc => ?_⟩
  cases hc
  refine ⟨⟨trivial, trivial⟩, fun c hc => ?_⟩
  cases hc
  refine ⟨⟨fun clo hclo => ?_, trivial⟩, fun c hc => ?_⟩
  · cases hclo
    intro _ _ _ hgen
    cases hgen
  cases hc
  refine ⟨⟨trivial, fun g gen hg hgen _ _ => ?_⟩, fun c hc => trivial⟩
  cases hg
  cases hgen
  rfl

/-- The state after `events` with the functions of `resumeHeap`. -/
def resumeRun (events : List Event) : Option Config :=
  run Config.step (Config.init 64 id resumeHeap) events

private theorem scriptResumes_runs : (resumeRun scriptResumes).isSome = true := by decide

private theorem hostResumes_runs : (resumeRun hostResumes).isSome = true := by decide

theorem roots_are_entry_frames_scriptResumes :
    RootsAreEntries ((resumeRun scriptResumes).get scriptResumes_runs) :=
  roots_are_entry_frames
    (reach_of_run scriptResumes_keepsRoots (Option.some_get scriptResumes_runs).symm)

/-- `Resume` brings `_root` back with the frame the host had resumed. -/
theorem resumed_root_not_entry :
    ¬ ∀ (stacksize : ℕ) (callstackdata : ℕ → ℕ) (heap : Heap) (c : Config),
      Reach Config.step (fun _ _ => True) (Config.init stacksize callstackdata heap) c →
        RootsAreEntries c := by
  intro h
  have hroots := (h 64 id resumeHeap ((resumeRun hostResumes).get hostResumes_runs)
    (reach_of_run (.of_forall (fun _ _ => trivial) _ hostResumes)
      (Option.some_get hostResumes_runs).symm)).roots
  revert hroots
  decide

end Squirt.Machine
