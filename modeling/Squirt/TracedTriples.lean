import Squirt.TracedRuns

/-!
# Pre- and postconditions of programs that leave a trace

`Ensures` says what holds when a program returns. The program does not run out of fuel, and only
where `fails` holds may it be undefined or diverge.
-/

namespace Squirt.Traced

variable {σ ε α β : Type} {fails : Prop} {m : Traced σ ε α} {s s' : σ} {a : α} {events : List ε}
  {Q Q' : α → σ → Prop}

def Ensures (fails : Prop) (m : Traced σ ε α) (s : σ) (Q : α → σ → Prop) : Prop :=
  match m s with
  | .done a s' _ => Q a s'
  | .undefined _ => fails
  | .diverged _ _ => fails
  | .outOfFuel => False

theorem ensures_of_done (hm : m s = .done a s' events) (h : Q a s') : Ensures fails m s Q := by
  rw [Ensures, hm]
  exact h

theorem Ensures.result (h : Ensures fails m s Q) (hm : m s = .done a s' events) : Q a s' := by
  rwa [Ensures, hm] at h

theorem Ensures.fueled (h : Ensures fails m s Q) : m s ≠ .outOfFuel := by
  intro hm
  rwa [Ensures, hm] at h

/-- Where it may not fail, a program returns. -/
theorem Ensures.returns (h : Ensures False m s Q) :
    ∃ a s' events, m s = .done a s' events ∧ Q a s' := by
  unfold Ensures at h
  split at h
  · exact ⟨_, _, _, by assumption, h⟩
  · exact h.elim
  · exact h.elim
  · exact h.elim

theorem Ensures.mono (h : Ensures fails m s Q) (hQ : ∀ a s', Q a s' → Q' a s') :
    Ensures fails m s Q' := by
  unfold Ensures at h ⊢
  split <;> simp_all only

theorem Ensures.mono_fails {fails' : Prop} (h : Ensures fails m s Q) (hfails : fails → fails') :
    Ensures fails' m s Q := by
  unfold Ensures at h ⊢
  split <;> simp_all only

theorem ensures_pure (h : Q a s) : Ensures fails (pure a : Traced σ ε α) s Q := h

theorem ensures_read {f : σ → α} (h : Q (f s) s) : Ensures fails (read f : Traced σ ε α) s Q := h

theorem ensures_modify {f : σ → σ} {Q : Unit → σ → Prop} (h : Q () (f s)) :
    Ensures fails (modify f : Traced σ ε Unit) s Q := h

theorem ensures_step {f : σ → Option (α × σ)} (hf : f s = some (a, s')) (h : Q a s') :
    Ensures fails (step f : Traced σ ε α) s Q := by
  have hdone : (step f : Traced σ ε α) s = .done a s' [] := by rw [step, hf]
  exact ensures_of_done hdone h

/-- A program in sequence ensures what the rest ensures after what it does itself. -/
theorem Ensures.bind {Q : β → σ → Prop} {k : α → Traced σ ε β}
    (h : Ensures fails m s fun a s' => Ensures fails (k a) s' Q) : Ensures fails (m >>= k) s Q := by
  unfold Ensures at h
  split at h
  · next a s' events hm =>
    unfold Ensures
    rw [bind_eq hm]
    cases hk : k a s' with
    | done b s'' events' => rwa [hk] at h
    | undefined | diverged | outOfFuel => rwa [hk] at h
  · next hm =>
    unfold Ensures
    simp only [Bind.bind, hm]
    exact h
  · next hm =>
    unfold Ensures
    simp only [Bind.bind, hm]
    exact h
  · exact h.elim

/-! ## Programs without loops -/

/-- A program that never runs out of fuel -/
def Fueled (m : Traced σ ε α) : Prop := ∀ s, m s ≠ .outOfFuel

theorem fueled_pure (a : α) : Fueled (pure a : Traced σ ε α) := fun _ => nofun

theorem fueled_read (f : σ → α) : Fueled (read f : Traced σ ε α) := fun _ => nofun

theorem fueled_modify (f : σ → σ) : Fueled (modify f : Traced σ ε Unit) := fun _ => nofun

theorem fueled_step (f : σ → Option (α × σ)) : Fueled (step f : Traced σ ε α) := by
  intro s h
  unfold step at h
  split at h <;> cases h

theorem Fueled.bind {k : α → Traced σ ε β} (h : Fueled m) (hk : ∀ a, Fueled (k a)) :
    Fueled (m >>= k) := by
  intro s
  simp only [Bind.bind]
  cases hm : m s with
  | done a s' events =>
    dsimp only
    cases hks : k a s' with
    | outOfFuel => exact absurd hks (hk a s')
    | done b s'' events' => exact nofun
    | undefined | diverged => exact nofun
  | outOfFuel => exact absurd hm (h s)
  | undefined | diverged => exact nofun

theorem Fueled.ensures (h : Fueled m) (hfails : fails)
    (hQ : ∀ a s' events, m s = .done a s' events → Q a s') : Ensures fails m s Q := by
  unfold Ensures
  split
  · next a s' events hm => exact hQ a s' events hm
  · exact hfails
  · exact hfails
  · next hm => exact h s hm

end Squirt.Traced
