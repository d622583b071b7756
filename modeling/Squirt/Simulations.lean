import Squirt.GuardedRuns
import Mathlib.Data.Option.Defs

/-!
# Machines with the same outputs

Two partial step functions with outputs. Where each step of one is a step of the other with the same
output, so are their runs.
-/

namespace Squirt.Simulations

open GuardedRuns

variable {State State' Event Output : Type*} {step : State → Event → Option (State × Output)}
  {step' : State' → Event → Option (State' × Output)} {guard : State → Event → Prop}
  {R : State → State' → Prop} {s : State} {t : State'}

/-- The step without its output -/
def silent (step : State → Event → Option (State × Output)) (s : State) (e : Event) : Option State :=
  (step s e).map Prod.fst

theorem guarded_of_mem {next : State → Event → Option State} {es : List Event}
    (h : ∀ s, ∀ e ∈ es, guard s e) (s : State) : Guarded next guard s es := by
  induction es generalizing s with
  | nil => trivial
  | cons e es ih =>
    exact ⟨h s e List.mem_cons_self, fun t _ =>
      ih (fun s e he => h s e (List.mem_cons_of_mem _ he)) t⟩

/-- The outputs of a run -/
def outputs (step : State → Event → Option (State × Output)) (s : State) :
    List Event → Option (List Output)
  | [] => some []
  | e :: es => (step s e).bind fun (t, o) => (outputs step t es).map (o :: ·)

/-- Related steps: both are faults, or they have the same output and related states. -/
def Agree (R : State → State' → Prop) : Option (State × Output) → Option (State' × Output) → Prop
  | none, none => True
  | some (s, o), some (t, o') => R s t ∧ o = o'
  | _, _ => False

/-- Related states have the same outputs. -/
theorem outputs_eq (hstep : ∀ s t e, R s t → guard s e → Agree R (step s e) (step' t e))
    (h : R s t) {es : List Event} (hguard : Guarded (silent step) guard s es) :
    outputs step s es = outputs step' t es := by
  induction es generalizing s t with
  | nil => rfl
  | cons e es ih =>
    have hagree := hstep s t e h hguard.1
    rw [outputs, outputs]
    cases hs : step s e with
    | none =>
      cases ht : step' t e with
      | none => rfl
      | some t' =>
        rw [hs, ht] at hagree
        exact hagree.elim
    | some next =>
      obtain ⟨s', o⟩ := next
      cases ht : step' t e with
      | none =>
        rw [hs, ht] at hagree
        exact hagree.elim
      | some next =>
        obtain ⟨t', o'⟩ := next
        rw [hs, ht] at hagree
        obtain ⟨hrel, rfl⟩ := hagree
        have hrest := ih hrel (hguard.2 s' (by rw [silent, hs, Option.map_some]))
        rw [Option.bind_some, Option.bind_some]
        dsimp only
        rw [hrest]

end Squirt.Simulations
