import Squirt.VmNestingRuns

/-!
# An invocation that fails leaves the frames as it found them

This takes `KeepsRoots` and `KeepsPlaces`: the frames nest in the invocations, and each
invocation can find its way back.
-/

namespace Squirt.Machine

open GuardedRuns

/-- The steps after which the frames of a failed invocation can be taken off again. -/
def KeepsFrames (c : Config) (e : Event) : Prop := KeepsRoots c e ∧ KeepsPlaces c e

variable {c : Config} {a : Activation} {rest : List Activation}

/-- The topmost invocation returns false. -/
def Config.failing (c : Config) (a : Activation) (rest : List Activation) : Prop :=
  c.active = a :: rest ∧ ∃ res suspend, a.pc = .done false res suspend

private theorem Nested.failing (h : Nested True c) (hf : c.failing a rest) : c.vm.snapshot = a.entry
    := by
  obtain ⟨hact, res, suspend, hpc⟩ := hf
  cases h with
  | host hnil => rw [hnil] at hact; cases hact
  | runs a' rest' hact' hruns =>
    obtain ⟨rfl, rfl⟩ := List.cons.inj (hact'.symm.trans hact)
    cases hruns with
    | script hent => simp [Activation.entered, hpc] at hent
    | native _ hloop => rw [hpc] at hloop; cases hloop
    | failed _ hfailed => rw [hpc] at hfailed; cases hfailed
  | back a' rest' ok res' suspend' hact' _ _ _ hentry =>
    obtain ⟨rfl, rfl⟩ := List.cons.inj (hact'.symm.trans hact)
    exact hentry trivial
  | suspended a' res' hact' hpc' =>
    obtain ⟨rfl, rfl⟩ := List.cons.inj (hact'.symm.trans hact)
    rw [hpc] at hpc'
    cases hpc'

/-- In every run that keeps the frames, a call of `SQVM::Call` or `SQVM::Execute` that
returns false has restored the frames, `_stackbase`, `_top`, the traps and `_nnativecalls`;
the `Execute` of `sq_wakeupvm` restores what the suspended one found. -/
theorem failing_restores_entry {stacksize : ℕ} {callstackdata : ℕ → ℕ} {heap : Heap}
    (h : Reach Config.step KeepsFrames (Config.init stacksize callstackdata heap) c)
    (hf : c.failing a rest) : c.vm.snapshot = a.entry := by
  have hgood : Good True c := by
    refine h.invariant ?_ (good_init True stacksize callstackdata heap)
    intro c e c' hc hk hs
    exact hc.step hk.1 (fun _ => hk.2) hs
  exact hgood.nested.failing hf

/-- A function with eight registers. -/
def metaHeap : Heap where
  closure _ := ⟨⟨2, 8, 0, false, false⟩, [], none, rfl⟩
  nativeclosure _ := ⟨0, [], [], none⟩
  constructor _ := .null
  metacall _ := .null

def metaRun (stacksize : ℕ) (events : List Event) : Option Config :=
  run Config.step (Config.init stacksize id metaHeap) events

/-- The host calls it as a metamethod, and it throws. -/
def metaThrows : List Event :=
  [.reenter (.closure 0) [.null, .null] true, .instr (.throw .null), .unwind]

/-- The host calls it as a metamethod, and it does not get its frame. -/
def metaOverflows : List Event := [.reenter (.closure 0) [.null, .null] true, .cont]

private theorem metaThrows_runs : (metaRun 32 metaThrows).isSome = true := by decide

private theorem metaOverflows_runs : (metaRun 16 metaOverflows).isSome = true := by decide

private theorem metaThrows_keepsFrames :
    Guarded Config.step KeepsFrames (Config.init 32 id metaHeap) metaThrows := by
  have hmeets : ReenterMeets ClosureStays (Config.init 32 id metaHeap)
      (Config.init 32 id metaHeap).vm (.closure 0) [.null, .null] true := by
    intro vm _ vm₁ _ _ _ hgen
    cases hgen
  have hfits : ReenterMeets ClosureFits (Config.init 32 id metaHeap)
      (Config.init 32 id metaHeap).vm (.closure 0) [.null, .null] true := by
    intro vm hvm
    cases hvm
    exact fun _ _ => .inl (by decide)
  refine ⟨⟨⟨hmeets, trivial⟩, hfits, trivial⟩, fun c hc => ?_⟩
  cases hc
  refine ⟨⟨⟨trivial, trivial⟩, trivial, trivial⟩, fun c hc => ?_⟩
  cases hc
  refine ⟨⟨⟨trivial, trivial⟩, trivial, fun ci et hci hpos => ?_⟩, fun c hc => trivial⟩
  cases hci
  cases hpos

theorem failing_restores_entry_metaThrows : ∃ a rest,
    ((metaRun 32 metaThrows).get metaThrows_runs).failing a rest ∧
      ((metaRun 32 metaThrows).get metaThrows_runs).vm.snapshot = a.entry :=
  have hf : ((metaRun 32 metaThrows).get metaThrows_runs).failing _ _ :=
    ⟨rfl, .null, false, rfl⟩
  ⟨_, _, hf, failing_restores_entry
    (reach_of_run metaThrows_keepsFrames (Option.some_get metaThrows_runs).symm) hf⟩

/-- `EnterFrame` fails after it has pushed the frame, and nobody takes it off. -/
theorem failing_leaves_frame :
    ¬ ∀ (stacksize : ℕ) (callstackdata : ℕ → ℕ) (heap : Heap) (c : Config) (a : Activation)
      (rest : List Activation),
      Reach Config.step (fun _ _ => True) (Config.init stacksize callstackdata heap) c →
        c.failing a rest → c.vm.snapshot = a.entry := by
  intro h
  have hf : ((metaRun 16 metaOverflows).get metaOverflows_runs).failing _ _ :=
    ⟨rfl, .null, false, rfl⟩
  have hsnap := h 16 id metaHeap _ _ _ (reach_of_run (.of_forall (fun _ _ => trivial) _ _)
    (Option.some_get metaOverflows_runs).symm) hf
  revert hsnap
  decide

end Squirt.Machine
