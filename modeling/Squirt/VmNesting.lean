import Squirt.VmFrameEffects

/-!
# How the frames nest in the C++ invocations

The call stack splits into the frames of the active invocations. Each invocation of
`Execute` has an entry frame at the bottom of its part, the only one of them with `_root`
set. With `P` the bases, the tops and the traps of the frames are tracked as well; without
it only the frames are.
-/

namespace Squirt.Machine

/-- Where the frames `inner` over the entry frame `e` stand, seen from what the
invocation found. -/
structure Positions (s entry : Snapshot) (inner : List CallInfo) (e : CallInfo) : Prop where
  stackbase : s.stackbase = entry.stackbase + e.prevstkbase + (inner.map (·.prevstkbase)).sum
  prevtop : e.prevtop = entry.top - entry.stackbase
  etraps : ∃ traps, s.etraps = traps ++ entry.etraps ∧
    traps.length = e.etraps + (inner.map (·.etraps)).sum

/-- The frames of an invocation that found `entry`. -/
structure Body (P : Prop) (s entry : Snapshot) (inner : List CallInfo) (e : CallInfo) :
    Prop where
  callsstack : s.callsstack = inner ++ e :: entry.callsstack
  inner_root : ∀ f ∈ inner, f.root = false
  positions : P → Positions s entry inner e

variable {P : Prop} {s s' entry : Snapshot} {inner rest : List CallInfo} {e ci f : CallInfo}

/-- Only frames without `_root` are over `base`. -/
def Above (frames base : List CallInfo) : Prop :=
  ∃ left, frames = left ++ base ∧ ∀ f ∈ left, f.root = false

theorem Above.refl (frames : List CallInfo) : Above frames frames := ⟨[], rfl, nofun⟩

theorem Above.of_eq {frames base : List CallInfo} (h : frames = base) : Above frames base :=
  h ▸ .refl _

theorem Above.trans {frames base base' : List CallInfo} (h : Above frames base)
    (h' : Above base base') : Above frames base' := by
  obtain ⟨left, rfl, hroot⟩ := h
  obtain ⟨left', rfl, hroot'⟩ := h'
  refine ⟨left ++ left', (List.append_assoc ..).symm, fun f hf => ?_⟩
  exact (List.mem_append.mp hf).elim (hroot f) (hroot' f)

theorem Above.cons {frames base : List CallInfo} (h : Above frames base) (hf : f.root = false) :
    Above (f :: frames) base := by
  obtain ⟨left, rfl, hroot⟩ := h
  refine ⟨f :: left, rfl, fun g hg => ?_⟩
  cases hg with
  | head => exact hf
  | tail _ hg => exact hroot g hg

/-- The frames are there again, below what failed calls may have left behind. -/
structure Restored (P : Prop) (s' s : Snapshot) : Prop where
  callsstack : Above s'.callsstack s.callsstack
  nnativecalls : s'.nnativecalls = s.nnativecalls
  places : P → s'.callsstack = s.callsstack ∧ s'.stackbase = s.stackbase ∧ s'.etraps = s.etraps

theorem Restored.of_eq (hcs : s'.callsstack = s.callsstack)
    (hnn : s'.nnativecalls = s.nnativecalls) (hbase : s'.stackbase = s.stackbase)
    (htraps : s'.etraps = s.etraps) : Restored P s' s :=
  ⟨.of_eq hcs, hnn, fun _ => ⟨hcs, hbase, htraps⟩⟩

theorem Body.restored (h : Body P s entry inner e) (hr : Restored P s' s) :
    ∃ inner', Body P s' entry inner' e := by
  obtain ⟨left, hcs, hroot⟩ := hr.callsstack
  refine ⟨left ++ inner, by rw [hcs, h.callsstack, List.append_assoc], fun f hf => ?_,
    fun hP => ?_⟩
  · exact (List.mem_append.mp hf).elim (hroot f) (h.inner_root f)
  · obtain ⟨hcs', hbase, htraps⟩ := hr.places hP
    have hnil : left = [] := List.append_left_eq_self.mp (hcs.symm.trans hcs')
    obtain ⟨hb, ht, hts⟩ := h.positions hP
    exact ⟨by rw [hbase, hb, hnil]; rfl, ht, by rw [htraps, hnil]; exact hts⟩

/-- One more frame. -/
theorem Body.push (h : Body P s entry inner e) {newbase : ℤ}
    {traps : List SQExceptionTrap} (hr : s.Remembers f newbase) (hroot : f.root = false)
    (htraps : P → traps.length = f.etraps) (hcs : s'.callsstack = f :: s.callsstack)
    (hbase : s'.stackbase = newbase) (hs : s'.etraps = traps ++ s.etraps) :
    Body P s' entry (f :: inner) e where
  callsstack := by rw [hcs, h.callsstack]; rfl
  inner_root g hg := by
    cases hg with
    | head => exact hroot
    | tail _ hg => exact h.inner_root g hg
  positions hP := by
    obtain ⟨hb, ht, ts, hts, hlen⟩ := h.positions hP
    refine ⟨?_, ht, traps ++ ts, by rw [hs, hts, List.append_assoc], ?_⟩
    · rw [hbase, List.map_cons, List.sum_cons, hr.prevstkbase]
      omega
    · rw [List.length_append, htraps hP, hlen, List.map_cons, List.sum_cons]
      omega

/-- The topmost frame is left, another one is below. -/
theorem Body.pop (h : Body P s entry (f :: inner) e) (htraps : P → f.etraps = 0)
    (hs : s' = s.leave f (inner ++ e :: entry.callsstack)) : Body P s' entry inner e where
  callsstack := by rw [hs]; rfl
  inner_root g hg := h.inner_root g (.tail _ hg)
  positions hP := by
    obtain ⟨hb, ht, ts, hts, hlen⟩ := h.positions hP
    have h0 := htraps hP
    rw [List.map_cons, List.sum_cons] at hb hlen
    refine ⟨?_, ht, ts, by rw [hs]; exact hts, by omega⟩
    rw [hs]
    simp only [Snapshot.leave]
    omega

/-- The entry frame is left. -/
theorem Body.exit (h : Body P s entry [] e) (htraps : P → e.etraps = 0) (hP : P) :
    s.leave e entry.callsstack = { entry with nnativecalls := s.nnativecalls } := by
  obtain ⟨hb, ht, ts, hts, hlen⟩ := h.positions hP
  simp only [List.map_nil, List.sum_nil, add_zero] at hb hlen
  have hnil : ts = [] := List.eq_nil_of_length_eq_zero (hlen.trans (htraps hP))
  simp only [Snapshot.leave, hts, hnil, List.nil_append, ht, hb, add_sub_cancel_right,
    add_sub_cancel]

/-- The frames of an invocation of `Execute` in its loop. -/
def Script (P : Prop) (s entry : Snapshot) : Prop :=
  ∃ inner e, Body P s entry inner e ∧ e.root = true

theorem Script.restored (h : Script P s entry) (hr : Restored P s' s) : Script P s' entry := by
  obtain ⟨inner, e, hb, hroot⟩ := h
  obtain ⟨inner', hb'⟩ := hb.restored hr
  exact ⟨inner', e, hb', hroot⟩

theorem Script.exists_head (h : Script P s entry) :
    ∃ ci rest, s.callsstack = ci :: rest := by
  obtain ⟨inner, e, hb, -⟩ := h
  cases inner with
  | nil => exact ⟨_, _, hb.callsstack⟩
  | cons f inner => exact ⟨_, _, hb.callsstack⟩

theorem Script.push (h : Script P s entry) {newbase : ℤ}
    (traps : List SQExceptionTrap) (hr : s.Remembers f newbase) (hroot : f.root = false)
    (htraps : P → traps.length = f.etraps) (hcs : s'.callsstack = f :: s.callsstack)
    (hbase : s'.stackbase = newbase) (hs : s'.etraps = traps ++ s.etraps) :
    Script P s' entry := by
  obtain ⟨inner, e, hb, he⟩ := h
  exact ⟨f :: inner, e, hb.push hr hroot htraps hcs hbase hs, he⟩

/-- A frame that is not a root is left. -/
theorem Script.pop (h : Script P s entry) (hcs : s.callsstack = ci :: rest)
    (hroot : ci.root = false) (htraps : P → ci.etraps = 0) (hs : s' = s.leave ci rest) :
    Script P s' entry := by
  obtain ⟨inner, e, hb, he⟩ := h
  have hcs' := hcs.symm.trans hb.callsstack
  cases inner with
  | nil =>
    cases hcs'
    rw [he] at hroot
    cases hroot
  | cons f inner =>
    cases hcs'
    exact ⟨inner, e, hb.pop htraps hs, he⟩

/-- A root is the entry frame, and leaving it restores what the invocation found. -/
theorem Script.exit (h : Script P s entry) (hcs : s.callsstack = ci :: rest)
    (hroot : ci.root = true) (htraps : P → ci.etraps = 0) :
    rest = entry.callsstack ∧
      (P → s.leave ci rest = { entry with nnativecalls := s.nnativecalls }) := by
  obtain ⟨inner, e, hb, he⟩ := h
  have hcs' := hcs.symm.trans hb.callsstack
  cases inner with
  | nil =>
    cases hcs'
    exact ⟨rfl, hb.exit htraps⟩
  | cons f inner =>
    cases hcs'
    rw [hb.inner_root ci (.head _)] at hroot
    cases hroot

/-- The topmost frame is changed where it does not matter, and `n` traps are pushed on or
popped from it. -/
theorem Script.setTop (h : Script P s entry) (ci' : CallInfo) (hcs : s.callsstack = ci :: rest)
    (hcs' : s'.callsstack = ci' :: rest) (hroot : ci'.root = ci.root)
    (hbase : ci'.prevstkbase = ci.prevstkbase) (htop : ci'.prevtop = ci.prevtop)
    (hsb : P → s'.stackbase = s.stackbase)
    (htraps : P → ∀ traps below, s.etraps = traps ++ below → ci.etraps ≤ traps.length →
      ∃ traps', s'.etraps = traps' ++ below ∧
        traps'.length + ci.etraps = traps.length + ci'.etraps) :
    Script P s' entry := by
  obtain ⟨inner, e, hb, he⟩ := h
  have heq := hcs.symm.trans hb.callsstack
  cases inner with
  | nil =>
    cases heq
    refine ⟨[], ci', ⟨hcs', nofun, fun hP => ?_⟩, hroot.trans he⟩
    obtain ⟨hb, ht, ts, hts, hlen⟩ := hb.positions hP
    simp only [List.map_nil, List.sum_nil, add_zero] at hb hlen
    obtain ⟨ts', hts', hlen'⟩ := htraps hP ts _ hts (by omega)
    refine ⟨by simp [hsb hP, hb, hbase], htop.trans ht, ts', hts', ?_⟩
    simp only [List.map_nil, List.sum_nil, add_zero]
    omega
  | cons f inner =>
    cases heq
    refine ⟨ci' :: inner, e, ⟨hcs', fun g hg => ?_, fun hP => ?_⟩, he⟩
    · cases hg with
      | head => exact hroot.trans (hb.inner_root ci (.head _))
      | tail _ hg => exact hb.inner_root g (.tail _ hg)
    · obtain ⟨hb, ht, ts, hts, hlen⟩ := hb.positions hP
      rw [List.map_cons, List.sum_cons] at hb hlen
      obtain ⟨ts', hts', hlen'⟩ := htraps hP ts _ hts (by omega)
      refine ⟨by rw [hsb hP, hb, List.map_cons, List.sum_cons, hbase], ht, ts', hts', ?_⟩
      rw [List.map_cons, List.sum_cons]
      omega

/-- The topmost frame loses its innermost trap. -/
theorem Script.popTrap (h : Script P s entry) {et : SQExceptionTrap}
    {etraps : List SQExceptionTrap} (hcs : s.callsstack = ci :: rest)
    (hcs' : s'.callsstack = { ci with etraps := ci.etraps - 1 } :: rest)
    (hsb : P → s'.stackbase = s.stackbase) (hs : s.etraps = et :: etraps)
    (hs' : s'.etraps = etraps) (hpos : P → 0 < ci.etraps) : Script P s' entry := by
  refine h.setTop _ hcs hcs' rfl rfl rfl hsb fun hP traps below htr hlen => ?_
  have hpos := hpos hP
  have htr' : et :: etraps = traps ++ below := hs.symm.trans htr
  cases traps with
  | nil =>
    rw [List.length_nil] at hlen
    omega
  | cons t traps =>
    rw [List.cons_append, List.cons.injEq] at htr'
    refine ⟨traps, hs'.trans htr'.2, ?_⟩
    rw [List.length_cons]
    change traps.length + ci.etraps = traps.length + 1 + (ci.etraps - 1)
    omega

/-- The traps of the topmost frame are there. -/
theorem Script.traps_le (h : Script P s entry) (hcs : s.callsstack = ci :: rest) (hP : P) :
    ci.etraps ≤ s.etraps.length := by
  obtain ⟨inner, e, hb, -⟩ := h
  obtain ⟨-, -, ts, hts, hlen⟩ := hb.positions hP
  have heq := hcs.symm.trans hb.callsstack
  rw [hts, List.length_append, hlen]
  cases inner with
  | nil =>
    cases heq
    omega
  | cons f inner =>
    cases heq
    rw [List.map_cons, List.sum_cons]
    omega

/-- An invocation of `Execute` that has entered its loop and has not returned. -/
def Activation.entered (a : Activation) : Bool :=
  match a.kind, a.pc with
  | .execute, .loop | .execute, .trap _ _ => true
  | _, _ => false

/-- The frame of a native function, and what it has left behind. -/
structure Native (P : Prop) (s entry : Snapshot) : Prop where
  frame : ∃ f fs, s.callsstack = f :: fs ∧ f.root = false ∧ Above fs entry.callsstack
  places : P → ∃ e, Body P s entry [] e ∧ e.etraps = 0

theorem Native.restored (h : Native P s entry) (hr : Restored P s' s) : Native P s' entry := by
  obtain ⟨f, fs, hcs, hroot, habove⟩ := h.frame
  refine ⟨?_, fun hP => ?_⟩
  · obtain ⟨left, hcs', hleft⟩ := hr.callsstack
    rw [hcs] at hcs'
    cases left with
    | nil => exact ⟨f, fs, hcs', hroot, habove⟩
    | cons g left =>
      exact ⟨g, left ++ f :: fs, hcs', hleft g (.head _),
        Above.trans ⟨left, rfl, fun f hf => hleft f (.tail _ hf)⟩ (habove.cons hroot)⟩
  · obtain ⟨e, hb, htraps⟩ := h.places hP
    obtain ⟨hcs', hbase, hts⟩ := hr.places hP
    obtain ⟨hb₁, hb₂, hb₃⟩ := hb.positions hP
    exact ⟨e, ⟨hcs'.trans hb.callsstack, nofun, fun _ =>
      ⟨hbase.trans hb₁, hb₂, hts ▸ hb₃⟩⟩, htraps⟩

/-- What an invocation that is running has to do with the frames. -/
inductive Runs (P : Prop) (s : Snapshot) (a : Activation) : Prop
  | script : a.entered = true → Script P s a.entry →
      s.nnativecalls = a.entry.nnativecalls + 1 → Runs P s a
  | native : a.kind = .native → a.pc = .loop → Native P s a.entry →
      s.nnativecalls = a.entry.nnativecalls + 1 → Runs P s a
  | failed : a.kind = .execute → a.pc = .failed → Above s.callsstack a.entry.callsstack →
      (P → s = { a.entry with nnativecalls := s.nnativecalls }) →
      s.nnativecalls = a.entry.nnativecalls + 1 → Runs P s a

/-- The state before the arguments of a call out of C++ code were pushed. -/
def Cont.before (k : Cont) (s : Snapshot) : Snapshot :=
  match k with
  | .reenter nparams _ _ => { s with top := s.top - nparams }
  | _ => s

def Activation.before (a : Activation) : Snapshot := a.cont.before a.entry

/-- The caller of an invocation is one that can take its result. -/
def Linked (k : Cont) (rest : List Activation) : Prop :=
  match k with
  | .opCall _ | .opConstruct | .reenter _ _ (some _) =>
    ∃ e es, rest = e :: es ∧ e.kind = .execute ∧ e.pc = .loop
  | .reenter _ _ none => True
  | .sqCall _ _ | .sqResume _ | .sqWakeup _ =>
    ∀ e es, rest = e :: es → e.kind = .native ∧ e.pc = .loop

/-- A suspended invocation, when there is one. -/
structure Host where
  suspended : Bool
  entry : Snapshot

def Config.host (c : Config) : Host := ⟨c.vm.suspended, c.suspendedEntry⟩

/-- No invocation is active: the only root is the entry frame of a suspended one. -/
structure Idle (P : Prop) (h : Host) (s : Snapshot) : Prop where
  nnativecalls : s.nnativecalls = 0
  idle : h.suspended = false → Above s.callsstack []
  suspended : h.suspended = true →
    Script P s h.entry ∧ Above h.entry.callsstack [] ∧ h.entry.nnativecalls = 0

/-- The invocations that wait, from the one that made the last call in state `s`. -/
def Waits (P : Prop) (h : Host) : Snapshot → List Activation → Prop
  | s, [] => Idle P h s
  | s, a :: rest => Runs P s a ∧ Linked a.cont rest ∧ Waits P h a.before rest

theorem Idle.restored {h : Host} (hi : Idle P h s) (hr : Restored P s' s) : Idle P h s' where
  nnativecalls := hr.nnativecalls.trans hi.nnativecalls
  idle hs := hr.callsstack.trans (hi.idle hs)
  suspended hs := by
    obtain ⟨hscript, hentry⟩ := hi.suspended hs
    exact ⟨hscript.restored hr, hentry⟩

/-- An invocation that runs does not care about `_top`, unless it has failed. -/
theorem Runs.restored {a : Activation} (h : Runs P s a) (hr : Restored P s' s)
    (htop : a.pc = .failed → P → s' = s) : Runs P s' a := by
  cases h with
  | script hent hscript hn =>
    exact .script hent (hscript.restored hr) (hr.nnativecalls.trans hn)
  | native hkind hpc hnative hn =>
    exact .native hkind hpc (hnative.restored hr) (hr.nnativecalls.trans hn)
  | failed hkind hpc hc hs hn =>
    refine .failed hkind hpc (hr.callsstack.trans hc) (fun hP => ?_) (hr.nnativecalls.trans hn)
    rw [htop hpc hP]
    exact hs hP

/-- What is below an invocation. -/
def Below (P : Prop) (h : Host) (a : Activation) (rest : List Activation) : Prop :=
  Linked a.cont rest ∧ Waits P h a.before rest

/-- How the frames nest in the active invocations. -/
inductive Nested (P : Prop) (c : Config) : Prop
  | host : c.active = [] → Idle P c.host c.vm.snapshot → Nested P c
  | runs (a : Activation) (rest : List Activation) : c.active = a :: rest →
      Runs P c.vm.snapshot a → Below P c.host a rest → Nested P c
  /-- an invocation returns with the frames as it found them -/
  | back (a : Activation) (rest : List Activation) (ok : Bool) (res : SQObject)
      (suspend : Bool) : c.active = a :: rest → a.pc = .done ok res suspend →
      Above c.vm.callsstack a.entry.callsstack → c.vm.nnativecalls = a.entry.nnativecalls →
      (P → c.vm.snapshot = a.entry) →
      (suspend = true → ok = true ∧ c.vm.nnativecalls = 1 ∧ c.vm.suspended = false) →
      Below P c.host a rest → Nested P c
  /-- the only invocation returns because the VM is suspended -/
  | suspended (a : Activation) (res : SQObject) : c.active = [a] →
      a.pc = .done true res false → c.vm.suspended = true → Linked a.cont [] →
      Idle P c.host c.vm.snapshot → Nested P c

/-- The invariant of every run. -/
structure Good (P : Prop) (c : Config) : Prop where
  nested : Nested P c
  generators : P → c.vm.GeneratorsOk

end Squirt.Machine
