import Mathlib.Algebra.BigOperators.Group.List.Basic
import Mathlib.Data.Int.Basic
import Mathlib.Tactic.Abel

/-!
# Programs that leave a trace

A program reads and writes a state and emits events. It may fail to return: because what it does
is undefined, because what it calls diverges, or because it runs out of fuel. A measure of the
state can be accounted for step by step: `Adds` says how much a program adds to it, besides what
its events weigh.
-/

namespace Squirt

/-- Where nothing is returned, the state in which the program stops, and the call it stops in -/
inductive Outcome (σ ε α : Type)
  | done (a : α) (s : σ) (events : List ε)
  | undefined (s : σ)
  | diverged (s : σ) (call : Option ε)
  | outOfFuel

def Traced (σ ε α : Type) := σ → Outcome σ ε α

namespace Traced

variable {σ ε α β : Type}

/-- What follows a program that has emitted `events`. -/
def after (events : List ε) : Outcome σ ε α → Outcome σ ε α
  | .done a s events' => .done a s (events ++ events')
  | .undefined s => .undefined s
  | .diverged s call => .diverged s call
  | .outOfFuel => .outOfFuel

instance : Monad (Traced σ ε) where
  pure a := fun s => .done a s []
  bind m k := fun s =>
    match m s with
    | .done a s events => after events (k a s)
    | .undefined s => .undefined s
    | .diverged s call => .diverged s call
    | .outOfFuel => .outOfFuel

/-- A part of the state -/
def read (f : σ → α) : Traced σ ε α := fun s => .done (f s) s []

def modify (f : σ → σ) : Traced σ ε Unit := fun s => .done () (f s) []

/-- A step that need not be defined -/
def step (f : σ → Option (α × σ)) : Traced σ ε α := fun s =>
  match f s with
  | some (a, s) => .done a s []
  | none => .undefined s

def outOfFuel : Traced σ ε α := fun _ => .outOfFuel

theorem bind_done {m : Traced σ ε α} {k : α → Traced σ ε β} {s s' : σ} {b : β} {events : List ε} :
    (m >>= k) s = .done b s' events ↔ ∃ a s₁ events₁ events₂, m s = .done a s₁ events₁ ∧
      k a s₁ = .done b s' events₂ ∧ events = events₁ ++ events₂ := by
  change (match m s with
    | .done a s events => after events (k a s)
    | .undefined s => .undefined s
    | .diverged s call => .diverged s call
    | .outOfFuel => .outOfFuel) = _ ↔ _
  cases hm : m s with
  | done a s₁ events₁ =>
    dsimp only
    cases hk : k a s₁ with
    | done b₁ s₂ events₂ =>
      constructor
      · rintro ⟨⟩
        exact ⟨a, s₁, events₁, events₂, rfl, hk, rfl⟩
      · rintro ⟨a', s₁', events₁', events₂', heq, hk', rfl⟩
        cases heq
        rw [hk] at hk'
        cases hk'
        rfl
    | undefined | diverged | outOfFuel =>
      constructor
      · intro h
        cases h
      · rintro ⟨a', s₁', events₁', events₂', heq, hk', -⟩
        cases heq
        rw [hk] at hk'
        cases hk'
  | undefined | diverged | outOfFuel =>
    constructor
    · intro h
      cases h
    · rintro ⟨a', s₁', events₁', events₂', heq, -⟩
      cases heq

theorem after_nil (out : Outcome σ ε α) : after [] out = out := by
  cases out <;> rfl

theorem after_after (events events' : List ε) (out : Outcome σ ε α) :
    after events (after events' out) = after (events ++ events') out := by
  cases out with
  | done a s events'' => exact congrArg (Outcome.done a s) (List.append_assoc ..).symm
  | undefined | diverged | outOfFuel => rfl

theorem after_injective {events : List ε} {out out' : Outcome σ ε α} :
    after events out = after events out' ↔ out = out' := by
  refine ⟨fun h => ?_, congrArg _⟩
  cases out with
  | done a s events' =>
    cases out' with
    | done a' s' events'' =>
      obtain ⟨rfl, rfl, heq⟩ := Outcome.done.inj h
      rw [List.append_cancel_left heq]
    | undefined | diverged | outOfFuel => cases h
  | undefined | diverged | outOfFuel =>
    cases out' with
    | done a' s' events'' => cases h
    | undefined | diverged | outOfFuel => cases h <;> rfl

/-- After a program that has returned -/
theorem bind_eq {m : Traced σ ε α} {k : α → Traced σ ε β} {s s' : σ} {a : α} {events : List ε}
    (h : m s = .done a s' events) : (m >>= k) s = after events (k a s') := by
  change (match m s with
    | .done a s events => after events (k a s)
    | .undefined s => .undefined s
    | .diverged s call => .diverged s call
    | .outOfFuel => .outOfFuel) = _
  rw [h]

theorem bind_pure {a : α} {k : α → Traced σ ε β} {s : σ} :
    ((pure a : Traced σ ε α) >>= k) s = k a s :=
  (bind_eq (m := (pure a : Traced σ ε α)) rfl).trans (after_nil _)

theorem bind_read {f : σ → α} {k : α → Traced σ ε β} {s : σ} :
    (Traced.read f >>= k) s = k (f s) s :=
  (bind_eq (m := Traced.read f) rfl).trans (after_nil _)

theorem bind_assoc {γ : Type} (m : Traced σ ε α) (k : α → Traced σ ε β) (l : β → Traced σ ε γ) :
    m >>= k >>= l = m >>= fun a => k a >>= l := by
  funext s
  simp only [bind]
  cases m s with
  | done a s' events =>
    dsimp only
    cases k a s' with
    | done b s'' events' => exact (after_after _ _ _).symm
    | undefined | diverged | outOfFuel => rfl
  | undefined | diverged | outOfFuel => rfl

/-- Two programs that begin alike end alike just when what follows the beginning does. -/
theorem bind_congr_iff {m : Traced σ ε α} {k k' : α → Traced σ ε β} {s : σ} :
    (m >>= k) s = (m >>= k') s ↔
      ∀ a s' events, m s = .done a s' events → k a s' = k' a s' := by
  cases h : m s with
  | done a s' events =>
    rw [bind_eq h, bind_eq h, after_injective]
    constructor
    · rintro heq _ _ _ ⟨⟩
      exact heq
    · exact fun heq => heq a s' events rfl
  | undefined | diverged | outOfFuel =>
    refine iff_of_true ?_ nofun
    simp only [bind, h]

/-- The program has fuel enough from `s` on; it is undefined only in a state that is `stuck`, and
diverges only in a call that `hangs`. -/
structure Ends (stuck : σ → Prop) (hangs : σ → Option ε → Prop) (m : Traced σ ε α) (s : σ) :
    Prop where
  fuel : m s ≠ .outOfFuel
  undefined : ∀ s', m s = .undefined s' → stuck s'
  diverges : ∀ s' call, m s = .diverged s' call → hangs s' call

namespace Ends

variable {stuck stuck' : σ → Prop} {hangs hangs' : σ → Option ε → Prop} {m : Traced σ ε α}
  {k : α → Traced σ ε β} {s : σ}

theorem of_done {a : α} {s' : σ} {events : List ε} (h : m s = .done a s' events) :
    Ends stuck hangs m s := by
  constructor
  · rw [h]
    exact nofun
  · rw [h]
    exact fun _ => nofun
  · rw [h]
    exact fun _ _ => nofun

theorem pure (a : α) : Ends stuck hangs (Pure.pure a : Traced σ ε α) s := of_done rfl

theorem read (f : σ → α) : Ends stuck hangs (Traced.read f : Traced σ ε α) s := of_done rfl

theorem modify (f : σ → σ) : Ends stuck hangs (Traced.modify f : Traced σ ε Unit) s := of_done rfl

theorem step {f : σ → Option (α × σ)} (hf : f s = none → stuck s) :
    Ends stuck hangs (Traced.step f : Traced σ ε α) s := by
  cases h : f s with
  | none =>
    have hrun : (Traced.step f : Traced σ ε α) s = .undefined s := by rw [Traced.step, h]
    constructor
    · rw [hrun]
      exact nofun
    · rw [hrun]
      rintro s' ⟨⟩
      exact hf h
    · rw [hrun]
      exact fun _ _ => nofun
  | some r => exact of_done (show Traced.step f s = .done r.1 r.2 [] by rw [Traced.step, h])

theorem mono (h : Ends stuck hangs m s) (hstuck : ∀ s, stuck s → stuck' s)
    (hhangs : ∀ s call, hangs s call → hangs' s call) : Ends stuck' hangs' m s where
  fuel := h.fuel
  undefined s' hs := hstuck s' (h.undefined s' hs)
  diverges s' call hs := hhangs s' call (h.diverges s' call hs)

theorem bind (hm : Ends stuck hangs m s)
    (hk : ∀ a s' events, m s = .done a s' events → Ends stuck hangs (k a) s') :
    Ends stuck hangs (m >>= k) s := by
  cases heq : m s with
  | done a s' events =>
    obtain ⟨hfuel, hundefined, hdiverges⟩ := hk a s' events heq
    have hrun : (m >>= k) s = after events (k a s') := bind_eq heq
    constructor
    · rw [hrun]
      intro h
      cases hout : k a s' with
      | outOfFuel => exact hfuel hout
      | done | undefined | diverged =>
        rw [hout] at h
        cases h
    · rw [hrun]
      intro s'' h
      cases hout : k a s' with
      | undefined =>
        rw [hout] at h
        cases h
        exact hundefined s'' hout
      | done | diverged | outOfFuel =>
        rw [hout] at h
        cases h
    · rw [hrun]
      intro s'' call h
      cases hout : k a s' with
      | diverged =>
        rw [hout] at h
        cases h
        exact hdiverges s'' call hout
      | done | undefined | outOfFuel =>
        rw [hout] at h
        cases h
  | undefined s' =>
    have hrun : (m >>= k) s = .undefined s' := by simp only [Bind.bind, heq]
    refine ⟨by rw [hrun]; nofun, ?_, by rw [hrun]; exact fun _ _ => nofun⟩
    rw [hrun]
    rintro _ ⟨⟩
    exact hm.undefined s' heq
  | diverged s' call =>
    have hrun : (m >>= k) s = .diverged s' call := by simp only [Bind.bind, heq]
    refine ⟨by rw [hrun]; nofun, by rw [hrun]; exact fun _ => nofun, ?_⟩
    rw [hrun]
    rintro _ _ ⟨⟩
    exact hm.diverges s' call heq
  | outOfFuel => exact absurd heq hm.fuel

theorem read_bind {f : σ → α} (hk : Ends stuck hangs (k (f s)) s) :
    Ends stuck hangs (Traced.read f >>= k) s := by
  apply (Ends.read f).bind
  rintro _ _ _ ⟨⟩
  exact hk

/-- What follows ends from every state. -/
theorem bind_all (hm : Ends stuck hangs m s) (hk : ∀ a s', Ends stuck hangs (k a) s') :
    Ends stuck hangs (m >>= k) s :=
  hm.bind fun a s' _ _ => hk a s'

end Ends

/-- Besides what the events weigh, the program adds `n` to the measure. -/
def Adds (measure : σ → ℤ) (weight : ε → ℤ) (m : Traced σ ε α) (n : ℤ) : Prop :=
  ∀ s a s' events, m s = .done a s' events →
    measure s' = measure s + n + (events.map weight).sum

namespace Adds

variable {measure : σ → ℤ} {weight : ε → ℤ} {m : Traced σ ε α} {k : α → Traced σ ε β} {n l : ℤ}

theorem pure (a : α) : Adds measure weight (Pure.pure a) 0 := by
  rintro s _ _ _ ⟨⟩
  simp

theorem read (f : σ → α) : Adds measure weight (Traced.read f) 0 := by
  rintro s _ _ _ ⟨⟩
  simp

theorem modify {f : σ → σ} (hf : ∀ s, measure (f s) = measure s + n) :
    Adds measure weight (Traced.modify f) n := by
  rintro s _ _ _ ⟨⟩
  simp [hf]

theorem step {f : σ → Option (α × σ)}
    (hf : ∀ s a s', f s = some (a, s') → measure s' = measure s + n) :
    Adds measure weight (Traced.step f) n := by
  intro s a s' events h
  unfold Traced.step at h
  split at h
  · rename_i hstep
    cases h
    simp [hf _ _ _ hstep]
  · cases h

theorem outOfFuel : Adds measure weight (Traced.outOfFuel : Traced σ ε α) n := nofun

theorem bind (hm : Adds measure weight m n) (hk : ∀ a, Adds measure weight (k a) l) :
    Adds measure weight (m >>= k) (n + l) := by
  intro s b s' events h
  obtain ⟨a, s₁, events₁, events₂, hm', hk', rfl⟩ := bind_done.mp h
  rw [hk a s₁ b s' events₂ hk', hm s a s₁ events₁ hm', List.map_append, List.sum_append]
  abel

/-- The second part adds nothing. -/
theorem bind_zero (hm : Adds measure weight m n) (hk : ∀ a, Adds measure weight (k a) 0) :
    Adds measure weight (m >>= k) n := by
  have h := hm.bind hk
  rwa [add_zero] at h

/-- The first part adds nothing. -/
theorem zero_bind (hm : Adds measure weight m 0) (hk : ∀ a, Adds measure weight (k a) n) :
    Adds measure weight (m >>= k) n := by
  have h := hm.bind hk
  rwa [zero_add] at h

end Adds

end Traced

end Squirt
