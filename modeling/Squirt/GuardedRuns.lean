import Mathlib.Data.List.Basic
import Mathlib.Data.Option.Basic

/-!
# Runs of a partial step function

A machine takes one event at a time; `none` is a fault, after which there is no run.
A guard says which steps a run is allowed to take. Invariants are proved for one step
and hold of every state of every guarded run.
-/

namespace Squirt.GuardedRuns

variable {State Event : Type*}

/-- The states that allowed steps reach from `start`. -/
inductive Reach (step : State → Event → Option State) (guard : State → Event → Prop)
    (start : State) : State → Prop
  | refl : Reach step guard start start
  | tail {s t : State} (e : Event) :
      Reach step guard start s → guard s e → step s e = some t → Reach step guard start t

variable {step : State → Event → Option State} {guard guard' : State → Event → Prop}
  {start s t : State} {Inv : State → Prop}

theorem Reach.trans (h : Reach step guard start s) (h' : Reach step guard s t) :
    Reach step guard start t := by
  induction h' with
  | refl => exact h
  | tail e _ hg hs ih => exact ih.tail e hg hs

/-- What one allowed step preserves holds after every run. -/
theorem Reach.invariant (hstep : ∀ s e t, Inv s → guard s e → step s e = some t → Inv t)
    (h : Reach step guard start s) (h0 : Inv start) : Inv s := by
  induction h with
  | refl => exact h0
  | tail e _ hg hs ih => exact hstep _ e _ ih hg hs

/-- Run a list of events, checking the guard at every step. -/
def run (step : State → Event → Option State) (s : State) : List Event → Option State
  | [] => some s
  | e :: es => (step s e).bind fun t => run step t es

/-- Every step of the run of `es` from `s` meets the guard. -/
def Guarded (step : State → Event → Option State) (guard : State → Event → Prop)
    (s : State) : List Event → Prop
  | [] => True
  | e :: es => guard s e ∧ ∀ t, step s e = some t → Guarded step guard t es

theorem reach_of_run {es : List Event} (hg : Guarded step guard s es)
    (h : run step s es = some t) : Reach step guard s t := by
  induction es generalizing s with
  | nil => exact Option.some.inj h ▸ .refl
  | cons e es ih =>
    obtain ⟨u, hu, hrun⟩ := Option.bind_eq_some_iff.mp h
    exact (Reach.refl.tail e hg.1 hu).trans (ih (hg.2 u hu) hrun)

theorem Guarded.of_forall (h : ∀ s e, guard s e) (s : State) (es : List Event) :
    Guarded step guard s es := by
  induction es generalizing s with
  | nil => trivial
  | cons e es ih => exact ⟨h s e, fun t _ => ih t⟩

theorem Guarded.cons {e : Event} {es : List Event} (hg : guard s e) (h : step s e = some t)
    (hes : Guarded step guard t es) : Guarded step guard s (e :: es) :=
  ⟨hg, fun _ hu => Option.some.inj (h.symm.trans hu) ▸ hes⟩

/-- The guard of the step after a run. -/
theorem Guarded.last {e : Event} {es : List Event} (hg : Guarded step guard s (es ++ [e]))
    (h : run step s es = some t) : guard t e := by
  induction es generalizing s with
  | nil => exact Option.some.inj h ▸ hg.1
  | cons e' es ih =>
    obtain ⟨u, hu, hrun⟩ := Option.bind_eq_some_iff.mp h
    exact ih (hg.2 u hu) hrun

/-- Two guards that mean the same in the states of an invariant. -/
theorem Guarded.iff_of_invariant {legal : State → Event → Prop}
    (hstep : ∀ s e t, Inv s → legal s e → guard s e → step s e = some t → Inv t)
    (hiff : ∀ s e, Inv s → legal s e → (guard s e ↔ guard' s e)) {es : List Event} (hs : Inv s)
    (hlegal : Guarded step legal s es) : Guarded step guard s es ↔ Guarded step guard' s es := by
  induction es generalizing s with
  | nil => exact Iff.rfl
  | cons e es ih =>
    have he := hiff s e hs hlegal.1
    constructor
    · rintro ⟨hg, hrest⟩
      refine ⟨he.mp hg, fun t ht => ?_⟩
      exact (ih (hstep s e t hs hlegal.1 hg ht) (hlegal.2 t ht)).mp (hrest t ht)
    · rintro ⟨hg, hrest⟩
      have hg' := he.mpr hg
      refine ⟨hg', fun t ht => ?_⟩
      exact (ih (hstep s e t hs hlegal.1 hg' ht) (hlegal.2 t ht)).mpr (hrest t ht)

end Squirt.GuardedRuns
