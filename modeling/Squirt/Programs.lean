import Mathlib.Data.List.Basic

/-!
# Programs that raise errors and repeat

A program changes a state and has a result or raises an error; the state at the error is kept.
A loop has fuel, and running out of it is an error of its own.
-/

namespace Programs

/-- Why a program stops -/
inductive Stop (ε : Type) where
  | raised (e : ε)
  | outOfFuel
  deriving DecidableEq

abbrev Program (σ ε α : Type) := EStateM (Stop ε) σ α

variable {σ ε α β : Type}

namespace Program

def raise (e : ε) : Program σ ε α := throw (.raised e)

/-- The body is run until it has a result. -/
def repeatUntil (body : Program σ ε (Option α)) : ℕ → Program σ ε α
  | 0 => throw .outOfFuel
  | fuel + 1 => do
    match ← body with
    | some a => pure a
    | none => repeatUntil body fuel

variable {x : Program σ ε α} {f : α → Program σ ε β} {s s' : σ} {a : α} {b : β} {e : Stop ε}

theorem bind_ok (h : x s = .ok a s') : (x >>= f) s = f a s' := by
  simp only [bind, EStateM.bind, h]

theorem bind_error (h : x s = .error e s') : (x >>= f) s = .error e s' := by
  simp only [bind, EStateM.bind, h]

theorem exists_of_bind_ok {s'' : σ} (h : (x >>= f) s = .ok b s'') :
    ∃ a s', x s = .ok a s' ∧ f a s' = .ok b s'' := by
  cases hx : x s with
  | ok a s' => exact ⟨a, s', rfl, (bind_ok hx).symm.trans h⟩
  | error e s' =>
    rw [bind_error hx] at h
    cases h

section Loops

variable {body : Program σ ε (Option α)} {fuel : ℕ}

theorem repeatUntil_done (h : body s = .ok (some a) s') :
    repeatUntil body (fuel + 1) s = .ok a s' :=
  bind_ok h

theorem repeatUntil_again (h : body s = .ok none s') :
    repeatUntil body (fuel + 1) s = repeatUntil body fuel s' :=
  bind_ok h

theorem repeatUntil_error (h : body s = .error e s') :
    repeatUntil body (fuel + 1) s = .error e s' :=
  bind_error h

end Loops

/-- The loop ends with a result of its body. -/
theorem repeatUntil_result {body : Program σ ε (Option α)} {Q : α → σ → Prop}
    (h : ∀ s a s', body s = .ok (some a) s' → Q a s') {fuel : ℕ}
    (hrun : repeatUntil body fuel s = .ok a s') : Q a s' := by
  induction fuel generalizing s with
  | zero => cases hrun
  | succ fuel ih =>
    obtain ⟨res, s₁, hbody, hrest⟩ := exists_of_bind_ok hrun
    cases res with
    | some a =>
      cases hrest
      exact h s a s' hbody
    | none => exact ih hrest

/-- Started where `P` holds, the program ends at a state that `R` relates to the first one. -/
def Leads (P : σ → Prop) (R : σ → σ → Prop) (x : Program σ ε α) : Prop :=
  ∀ s a s', P s → x s = .ok a s' → R s s'

section Leads

variable {P Q : σ → Prop} {R : σ → σ → Prop}

theorem Leads.mono (h : Leads P R x) (hPQ : ∀ s, Q s → P s) : Leads Q R x :=
  fun s a s' hs hx => h s a s' (hPQ s hs) hx

theorem leads_pure (hrefl : ∀ s, R s s) (a : α) : Leads P R (pure a : Program σ ε α) := by
  intro s b s' _ h
  cases h
  exact hrefl s

theorem leads_raise (e : ε) : Leads P R (raise e : Program σ ε α) := by
  intro s a s' _ h
  cases h

/-- The second program starts where the first one ends. -/
theorem Leads.bind (htrans : ∀ s s' s'', R s s' → R s' s'' → R s s'') (hx : Leads P R x)
    (hPQ : ∀ s a s', P s → x s = .ok a s' → Q s') (hf : ∀ a, Leads Q R (f a)) :
    Leads P R (x >>= f) := by
  intro s b s'' hs h
  obtain ⟨a, s', hx', hf'⟩ := exists_of_bind_ok h
  exact htrans s s' s'' (hx s a s' hs hx') (hf a s' b s'' (hPQ s a s' hs hx') hf')

/-- A loop leads where its rounds do. -/
theorem Leads.repeatUntil (htrans : ∀ s s' s'', R s s' → R s' s'' → R s s'')
    {body : Program σ ε (Option α)} (h : Leads P R body) (hagain : ∀ s s', P s → body s = .ok none s' → P s') (fuel : ℕ) :
    Leads P R (repeatUntil body fuel) := by
  induction fuel with
  | zero =>
    intro s a s' _ hrun
    cases hrun
  | succ fuel ih =>
    intro s a s'' hs hrun
    obtain ⟨res, s', hbody, hrest⟩ := exists_of_bind_ok hrun
    have hround := h s res s' hs hbody
    cases res with
    | some a =>
      cases hrest
      exact hround
    | none => exact htrans s s' s'' hround (ih s' a s'' (hagain s s' hs hbody) hrest)

end Leads

/-- Started at a state, the program has a result, and `Q` holds of it and of the state it ends
at. -/
def Yields (s : σ) (x : Program σ ε α) (Q : α → σ → Prop) : Prop := ∃ a s', x s = .ok a s' ∧ Q a s'

section Yields

variable {Q Q' : α → σ → Prop} {R : β → σ → Prop}

theorem Yields.mono (h : Yields s x Q) (hQ : ∀ a s', Q a s' → Q' a s') : Yields s x Q' := by
  obtain ⟨a, s', hx, ha⟩ := h
  exact ⟨a, s', hx, hQ a s' ha⟩

theorem yields_pure (h : Q a s) : Yields s (pure a : Program σ ε α) Q := ⟨a, s, rfl, h⟩

theorem yields_getBind {f : σ → Program σ ε β} (h : Yields s (f s) R) : Yields s (get >>= f) R := h

/-- The second program has a result wherever the first one ends. -/
theorem Yields.bind (hx : Yields s x Q) (hf : ∀ a s', Q a s' → Yields s' (f a) R) :
    Yields s (x >>= f) R := by
  obtain ⟨a, s', hx, ha⟩ := hx
  obtain ⟨b, s'', hf, hb⟩ := hf a s' ha
  exact ⟨b, s'', (bind_ok hx).trans hf, hb⟩

theorem Yields.done {body : Program σ ε (Option α)} {fuel : ℕ}
    (h : Yields s body fun res s' => ∃ a, res = some a ∧ Q a s') :
    Yields s (Program.repeatUntil body (fuel + 1)) Q := by
  obtain ⟨_, s', hbody, a, rfl, ha⟩ := h
  exact ⟨a, s', repeatUntil_done hbody, ha⟩

theorem Yields.again {body : Program σ ε (Option α)} {fuel : ℕ}
    (h : Yields s body fun res s' => res = none ∧ Yields s' (Program.repeatUntil body fuel) Q) :
    Yields s (Program.repeatUntil body (fuel + 1)) Q := by
  obtain ⟨_, s', hbody, rfl, a, s'', hrest, ha⟩ := h
  exact ⟨a, s'', (repeatUntil_again hbody).trans hrest, ha⟩

end Yields

/-- Started anywhere, the program has a result. -/
def Ends (x : Program σ ε α) : Prop := ∀ s, Yields s x fun _ _ => True

section Ends

theorem ends_pure (a : α) : Ends (pure a : Program σ ε α) := fun _ => yields_pure trivial

theorem ends_get : Ends (get : Program σ ε σ) := fun s => ⟨s, s, rfl, trivial⟩

theorem ends_modify (g : σ → σ) : Ends (modify g : Program σ ε PUnit) :=
  fun s => ⟨⟨⟩, g s, rfl, trivial⟩

theorem Ends.map (hx : Ends x) (g : α → β) : Ends (g <$> x) := by
  intro s
  obtain ⟨a, s', hx, -⟩ := hx s
  refine ⟨g a, s', ?_, trivial⟩
  simp only [Functor.map, EStateM.map, hx]

theorem Ends.bind (hx : Ends x) (hf : ∀ a, Ends (f a)) : Ends (x >>= f) :=
  fun s => (hx s).bind fun a s' _ => hf a s'

end Ends

/-- Started at a state, the program ends with a result and a state that `Q` holds of, or with an
error and a state that `E` holds of. -/
def Outcome (s : σ) (x : Program σ ε α) (Q : α → σ → Prop) (E : Stop ε → σ → Prop) : Prop :=
  match x s with
  | .ok a s' => Q a s'
  | .error e s' => E e s'

section Outcome

variable {Q Q' : α → σ → Prop} {R : β → σ → Prop} {E : Stop ε → σ → Prop}

theorem outcome_of_ok (hx : x s = .ok a s') (h : Q a s') : Outcome s x Q E := by
  rw [Outcome, hx]
  exact h

theorem outcome_of_error (hx : x s = .error e s') (h : E e s') : Outcome s x Q E := by
  rw [Outcome, hx]
  exact h

theorem Outcome.of_ok (h : Outcome s x Q E) (hx : x s = .ok a s') : Q a s' := by
  rw [Outcome, hx] at h
  exact h

theorem Outcome.of_error (h : Outcome s x Q E) (hx : x s = .error e s') : E e s' := by
  rw [Outcome, hx] at h
  exact h

theorem Outcome.mono (h : Outcome s x Q E) (hQ : ∀ a s', Q a s' → Q' a s') :
    Outcome s x Q' E := by
  cases hx : x s with
  | ok a s' => exact outcome_of_ok hx (hQ a s' (h.of_ok hx))
  | error e s' => exact outcome_of_error hx (h.of_error hx)

/-- The second program starts where the first one ends, with what holds there. -/
theorem Outcome.bind (hx : Outcome s x Q E) (hf : ∀ a s', Q a s' → Outcome s' (f a) R E) :
    Outcome s (x >>= f) R E := by
  cases h : x s with
  | ok a s' =>
    have hrest := hf a s' (hx.of_ok h)
    rw [Outcome, bind_ok h]
    exact hrest
  | error e s' => exact outcome_of_error (bind_error h) (hx.of_error h)

theorem Outcome.afterOk (hx : x s = .ok a s') (hf : Outcome s' (f a) R E) :
    Outcome s (x >>= f) R E := by
  rw [Outcome, bind_ok hx]
  exact hf

theorem Outcome.afterError (hx : x s = .error e s') (h : E e s') : Outcome s (x >>= f) R E :=
  outcome_of_error (bind_error hx) h

theorem outcome_pure (h : Q a s) : Outcome s (pure a : Program σ ε α) Q E := h

theorem outcome_getBind {f : σ → Program σ ε β} (h : Outcome s (f s) R E) :
    Outcome s (get >>= f) R E := h

theorem outcome_modify {g : σ → σ} {Q : PUnit → σ → Prop} (h : Q ⟨⟩ (g s)) :
    Outcome s (modify g : Program σ ε PUnit) Q E := h

end Outcome

/-- Whatever the program has as its result, `Q` holds of it. -/
def Gives (x : Program σ ε α) (Q : α → Prop) : Prop := ∀ s a s', x s = .ok a s' → Q a

section Gives

variable {Q Q' : α → Prop} {R : β → Prop}

theorem Gives.mono (h : Gives x Q) (hQ : ∀ a, Q a → Q' a) : Gives x Q' :=
  fun s a s' hx => hQ a (h s a s' hx)

private theorem gives_any (x : Program σ ε α) : Gives x fun _ => True := fun _ _ _ _ => trivial

theorem gives_pure (h : Q a) : Gives (pure a : Program σ ε α) Q := by
  intro s b s' hx
  cases hx
  exact h

theorem Gives.bind (hx : Gives x Q) (hf : ∀ a, Q a → Gives (f a) R) : Gives (x >>= f) R := by
  intro s b s'' hrun
  obtain ⟨a, s', hfirst, hrest⟩ := exists_of_bind_ok hrun
  exact hf a (hx s a s' hfirst) s' b s'' hrest

/-- Nothing is known of the first result. -/
theorem Gives.after (hf : ∀ a, Gives (f a) R) : Gives (x >>= f) R :=
  (gives_any x).bind fun a _ => hf a

theorem Gives.map {g : α → β} (hx : Gives x fun a => R (g a)) : Gives (g <$> x) R := by
  intro s b s' hrun
  cases hrun' : x s with
  | ok a s₁ =>
    simp only [Functor.map, EStateM.map, hrun'] at hrun
    cases hrun
    exact hx s a _ hrun'
  | error e s₁ =>
    simp only [Functor.map, EStateM.map, hrun'] at hrun
    cases hrun

theorem Yields.gives {Q : α → σ → Prop} (h : Yields s x Q) (hx : Gives x Q') :
    Yields s x fun a s' => Q a s' ∧ Q' a := by
  obtain ⟨a, s', hrun, ha⟩ := h
  exact ⟨a, s', hrun, ha, hx s a s' hrun⟩

end Gives

/-- What a program comes to, without the state -/
def resultOf (x : Program σ ε α) (s : σ) : Except (Stop ε) α :=
  match x s with
  | .ok a _ => .ok a
  | .error e _ => .error e

theorem resultOf_ok (h : x s = .ok a s') : resultOf x s = .ok a := by
  rw [resultOf, h]

theorem resultOf_error (h : x s = .error e s') : resultOf x s = .error e := by
  rw [resultOf, h]

/-- Two programs come to the same result, wherever they start. -/
def SameResult (x y : Program σ ε α) : Prop := ∀ s s', resultOf x s = resultOf y s'

section SameResult

variable {y : Program σ ε α} {g : α → Program σ ε β} {z : Program σ ε β}

theorem SameResult.symm (h : SameResult x y) : SameResult y x := fun s s' => (h s' s).symm

theorem SameResult.trans {z : Program σ ε α} (h : SameResult x y) (h' : SameResult y z) :
    SameResult x z := fun s s' => (h s s').trans (h' s' s')

theorem same_pure (a : α) : SameResult (pure a : Program σ ε α) (pure a) := fun _ _ => rfl

theorem same_raise (e : Stop ε) : SameResult (throw e : Program σ ε α) (throw e) := fun _ _ => rfl

theorem SameResult.bind (h : SameResult x y) (hf : ∀ a, SameResult (f a) (g a)) :
    SameResult (x >>= f) (y >>= g) := by
  intro s s'
  have hres := h s s'
  cases hx : x s with
  | ok a s₁ =>
    cases hy : y s' with
    | ok b s₂ =>
      rw [resultOf_ok hx, resultOf_ok hy] at hres
      cases hres
      rw [resultOf, resultOf, bind_ok hx, bind_ok hy]
      exact hf a s₁ s₂
    | error e s₂ =>
      rw [resultOf_ok hx, resultOf_error hy] at hres
      cases hres
  | error e s₁ =>
    cases hy : y s' with
    | ok b s₂ =>
      rw [resultOf_error hx, resultOf_ok hy] at hres
      cases hres
    | error e' s₂ =>
      rw [resultOf_error hx, resultOf_error hy] at hres
      cases hres
      rw [resultOf_error (bind_error hx), resultOf_error (bind_error hy)]

/-- A program that cannot fail makes no difference when its result makes none. -/
theorem SameResult.before (hx : Ends x) (hf : ∀ a, SameResult (f a) z) :
    SameResult (x >>= f) z := by
  intro s s'
  obtain ⟨a, s₁, hrun, -⟩ := hx s
  rw [resultOf, bind_ok hrun]
  exact hf a s₁ s'

/-- The state may be looked at where the result does not depend on it. -/
theorem same_get {f g : σ → Program σ ε β} (h : ∀ s s', SameResult (f s) (g s')) :
    SameResult (get >>= f) (get >>= g) := fun s s' => h s s' s s'

theorem Gives.of_same {Q : α → Prop} (hy : Gives y Q) (h : SameResult x y) : Gives x Q := by
  intro s a s' hx
  have hres := h s s
  rw [resultOf_ok hx] at hres
  cases hrun : y s with
  | ok b s₁ =>
    rw [resultOf_ok hrun] at hres
    cases hres
    exact hy s a s₁ hrun
  | error e s₁ =>
    rw [resultOf_error hrun] at hres
    cases hres

theorem SameResult.map (h : SameResult x y) (g : α → β) : SameResult (g <$> x) (g <$> y) := by
  rw [map_eq_pure_bind, map_eq_pure_bind]
  exact h.bind fun a => same_pure (g a)

end SameResult

end Program

end Programs
