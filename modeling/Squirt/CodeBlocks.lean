import Mathlib.Algebra.Order.Ring.Int
import Mathlib.Data.List.Basic

/-!
# What a block of code does

Instructions change a state and say how far to jump from the next instruction, or they raise an
exception. A block of the code implements a function if it takes related states to related states
and raises the exceptions of the function.
-/

namespace Squirt.CodeBlocks

variable {I S X σ τ υ : Type}

/-- A value that `P` holds of, or an exception that `Q` holds of -/
def Meets (r : Except X τ) (P : τ → Prop) (Q : X → Prop) : Prop :=
  match r with
  | .ok y => P y
  | .error e => Q e

section Meets

variable {r : Except X τ} {P P' : τ → Prop} {Q Q' : X → Prop}

theorem Meets.mono (h : Meets r P Q) (hP : ∀ y, P y → P' y) (hQ : ∀ e, Q e → Q' e) :
    Meets r P' Q' := by
  cases r with
  | ok y => exact hP y h
  | error e => exact hQ e h

theorem Meets.bind {F : τ → Except X υ} {P' : υ → Prop} (h : Meets r P Q)
    (hP : ∀ y, P y → Meets (F y) P' Q) : Meets (r >>= F) P' Q := by
  cases r with
  | ok y => exact hP y h
  | error e => exact h

theorem Meets.map {P' : υ → Prop} (h : Meets r P Q) (g : τ → υ) (hP : ∀ y, P y → P' (g y)) :
    Meets (r.map g) P' Q := by
  cases r with
  | ok y => exact hP y h
  | error e => exact h

end Meets

variable (step : I → S → Option (Except X (ℤ × S)))

/-- Started at a position, the code comes to a position and a state, or raises an exception, by
instructions at positions from `lo` up to `hi`. -/
inductive Comes (code : List I) (lo hi : ℕ) : ℕ → S → Except X (ℕ × S) → Prop
  | here (pos : ℕ) (s : S) : Comes code lo hi pos s (.ok (pos, s))
  | raise {pos : ℕ} {s : S} {i : I} {x : X} (hlo : lo ≤ pos) (hhi : pos < hi)
      (hat : code[pos]? = some i) (hstep : step i s = some (.error x)) :
      Comes code lo hi pos s (.error x)
  | next {pos pos' : ℕ} {s s' : S} {i : I} {d : ℤ} {r : Except X (ℕ × S)} (hlo : lo ≤ pos)
      (hhi : pos < hi) (hat : code[pos]? = some i) (hstep : step i s = some (.ok (d, s')))
      (hpos : (pos' : ℤ) = pos + 1 + d) (hr : Comes code lo hi pos' s' r) :
      Comes code lo hi pos s r

variable {step} {code code' : List I} {lo hi lo' hi' a b c e t f : ℕ} {s s' : S}
  {r : Except X (ℕ × S)}

namespace Comes

theorem congr (h : Comes step code lo hi a s r) (hlo : lo' ≤ lo) (hhi : hi ≤ hi')
    (hcode : ∀ p, lo ≤ p → p < hi → code'[p]? = code[p]?) : Comes step code' lo' hi' a s r := by
  induction h with
  | here pos s => exact here pos s
  | raise h₁ h₂ hat hstep =>
    exact raise (hlo.trans h₁) (h₂.trans_le hhi) ((hcode _ h₁ h₂).trans hat) hstep
  | next h₁ h₂ hat hstep hpos _ ih =>
    exact next (hlo.trans h₁) (h₂.trans_le hhi) ((hcode _ h₁ h₂).trans hat) hstep hpos ih

theorem mono (h : Comes step code lo hi a s r) (hlo : lo' ≤ lo) (hhi : hi ≤ hi') :
    Comes step code lo' hi' a s r :=
  h.congr hlo hhi fun _ _ _ => rfl

theorem trans (h : Comes step code lo hi a s (.ok (b, s'))) (h' : Comes step code lo hi b s' r) :
    Comes step code lo hi a s r := by
  generalize hq : (Except.ok (b, s') : Except X (ℕ × S)) = q at h
  induction h with
  | here pos s =>
    cases hq
    exact h'
  | raise => cases hq
  | next h₁ h₂ hat hstep hpos _ ih => exact next h₁ h₂ hat hstep hpos (ih hq)

end Comes

variable {A : σ → S → Prop} {B : τ → S → Prop} {C : υ → S → Prop} {D : σ → Except X τ}
  {F G : τ → Except X υ} {i j : I}

section Blocks

variable (step)

/-- The code from `a` up to `b` does what `D` says. -/
def Implements (code : List I) (a b : ℕ) (A : σ → S → Prop) (B : τ → S → Prop)
    (D : σ → Except X τ) : Prop :=
  ∀ x s, A x s → Meets (D x) (fun y => ∃ s', B y s' ∧ Comes step code a b a s (.ok (b, s')))
    fun e => Comes step code a b a s (.error e)

/-- The instruction does what `D` says, and the next instruction comes next. -/
def Does (i : I) (A : σ → S → Prop) (B : τ → S → Prop) (D : σ → Except X τ) : Prop :=
  ∀ x s, A x s → Meets (D x) (fun y => ∃ s', B y s' ∧ step i s = some (.ok (0, s')))
    fun e => step i s = some (.error e)

/-- One instruction for two: `j` does the same as `i` and `i'` up to what `C` does not look at. -/
structure Replaces (i i' j : I) (C : υ → S → Prop) : Prop where
  first : ∀ s x, step i s = some (.error x) → step j s = some (.error x)
  second : ∀ s s' x, step i s = some (.ok (0, s')) → step i' s' = some (.error x) →
    step j s = some (.error x)
  both : ∀ s s' s'' z, step i s = some (.ok (0, s')) → step i' s' = some (.ok (0, s'')) →
    C z s'' → ∃ s₃, C z s₃ ∧ step j s = some (.ok (0, s₃))

/-- The code from `a` up to `b` does what `D` says, and goes on at `t` or at `f`. -/
def Tests (code : List I) (a b t f : ℕ) (A : σ → S → Prop) (B : Bool × τ → S → Prop)
    (D : σ → Except X (Bool × τ)) : Prop :=
  ∀ x s, A x s → Meets (D x)
    (fun y => ∃ s', B y s' ∧ Comes step code a b a s (.ok (if y.1 then t else f, s')))
    fun e => Comes step code a b a s (.error e)

end Blocks

namespace Implements

theorem refl (A : σ → S → Prop) : Implements step code a a A A (Except.ok (ε := X)) :=
  fun _ s h => ⟨s, h, .here a s⟩

theorem congr (h : Implements step code a b A B D)
    (hcode : ∀ p, a ≤ p → p < b → code'[p]? = code[p]?) : Implements step code' a b A B D := by
  intro x s hx
  apply (h x s hx).mono
  · rintro y ⟨s', hB, hcomes⟩
    exact ⟨s', hB, hcomes.congr le_rfl le_rfl hcode⟩
  · intro e hcomes
    exact hcomes.congr le_rfl le_rfl hcode

theorem trans (h : Implements step code a b A B D) (h' : Implements step code b c B C F)
    (hab : a ≤ b) (hbc : b ≤ c) : Implements step code a c A C fun x => D x >>= F := by
  intro x s hx
  have hfirst := (h x s hx).mono (fun _ hy => hy) fun _ hcomes => hcomes.mono le_rfl hbc
  apply hfirst.bind
  rintro y ⟨s', hB, hcomes⟩
  have hto := hcomes.mono le_rfl hbc
  apply (h' y s' hB).mono
  · rintro z ⟨s'', hC, hcomes'⟩
    exact ⟨s'', hC, hto.trans (hcomes'.mono hab le_rfl)⟩
  · intro e hcomes'
    exact hto.trans (hcomes'.mono hab le_rfl)

theorem map (h : Implements step code a b A B D) (g : τ → υ)
    (hg : ∀ y s, B y s → C (g y) s) : Implements step code a b A C fun x => (D x).map g := by
  intro x s hx
  apply (h x s hx).map
  rintro y ⟨s', hB, hcomes⟩
  exact ⟨s', hg y s' hB, hcomes⟩

/-- A test after a block -/
theorem tests {F : τ → Except X (Bool × υ)} {C : Bool × υ → S → Prop}
    (h : Implements step code a b A B D) (h' : Tests step code b c t f B C F) (hab : a ≤ b)
    (hbc : b ≤ c) : Tests step code a c t f A C fun x => D x >>= F := by
  intro x s hx
  have hfirst := (h x s hx).mono (fun _ hy => hy) fun _ hcomes => hcomes.mono le_rfl hbc
  apply hfirst.bind
  rintro y ⟨s', hB, hcomes⟩
  have hto := hcomes.mono le_rfl hbc
  apply (h' y s' hB).mono
  · rintro z ⟨s'', hC, hcomes'⟩
    exact ⟨s'', hC, hto.trans (hcomes'.mono hab le_rfl)⟩
  · intro e hcomes'
    exact hto.trans (hcomes'.mono hab le_rfl)

/-- A jump after a block -/
theorem jump {d : ℤ} (h : Implements step code a b A B D) (hat : code[b]? = some i)
    (hi : ∀ s, step i s = some (.ok (d, s))) (hd : (e : ℤ) = b + 1 + d) (hab : a ≤ b)
    (hbe : b < e) : Implements step code a e A B D := by
  intro x s hx
  apply (h x s hx).mono
  · rintro y ⟨s', hB, hcomes⟩
    have hto : Comes step code a e a s (.ok (b, s')) := hcomes.mono le_rfl hbe.le
    exact ⟨s', hB, hto.trans (.next hab hbe hat (hi s') hd (.here _ _))⟩
  · intro x hcomes
    exact hcomes.mono le_rfl hbe.le

end Implements

namespace Does

theorem implements (h : Does step i A B D) (hat : code[a]? = some i) :
    Implements step code a (a + 1) A B D := by
  intro x s hx
  apply (h x s hx).mono
  · rintro y ⟨s', hB, hstep⟩
    exact ⟨s', hB, .next le_rfl a.lt_succ_self hat hstep (by simp) (.here _ _)⟩
  · intro e hstep
    exact .raise le_rfl a.lt_succ_self hat hstep

theorem map (h : Does step i A B D) (g : τ → υ) (hg : ∀ y s, B y s → C (g y) s) :
    Does step i A C fun x => (D x).map g := by
  intro x s hx
  apply (h x s hx).map
  rintro y ⟨s', hB, hstep⟩
  exact ⟨s', hg y s' hB, hstep⟩

/-- Where `j` stands for `i` and `i'`, it does what they do. -/
theorem fuse {i' : I} (h : Does step i A B D) (h' : Does step i' B C F)
    (hj : Replaces step i i' j C) : Does step j A C fun x => D x >>= F := by
  intro x s hx
  have hfirst := (h x s hx).mono (fun _ hy => hy) (hj.first s)
  apply hfirst.bind
  rintro y ⟨s', hB, hstep⟩
  apply (h' y s' hB).mono
  · rintro z ⟨s'', hC, hstep'⟩
    exact hj.both s s' s'' z hstep hstep' hC
  · intro e hstep'
    exact hj.second s s' e hstep hstep'

end Does

/-- One instruction that jumps on a test -/
theorem Tests.of_step {B : Bool × τ → S → Prop} {D : σ → Except X (Bool × τ)} {d : ℤ}
    (hat : code[a]? = some i) (hd : (f : ℤ) = a + 1 + d)
    (h : ∀ x s, A x s → Meets (D x)
      (fun y => ∃ s', B y s' ∧ step i s = some (.ok (if y.1 then 0 else d, s')))
      fun e => step i s = some (.error e)) :
    Tests step code a (a + 1) (a + 1) f A B D := by
  intro x s hx
  apply (h x s hx).mono
  · rintro ⟨_ | _, y⟩ ⟨s', hB, hstep⟩
    · exact ⟨s', hB, .next le_rfl a.lt_succ_self hat hstep hd (.here _ _)⟩
    · exact ⟨s', hB, .next le_rfl a.lt_succ_self hat hstep (by simp) (.here _ _)⟩
  · intro e hstep
    exact .raise le_rfl a.lt_succ_self hat hstep

/-- A test and what comes after it in both cases -/
theorem Tests.branch {B : Bool × τ → S → Prop} {D : σ → Except X (Bool × τ)}
    (h : Tests step code a b t f A B D)
    (ht : Implements step code t e (fun y => B (true, y)) C F)
    (hf : Implements step code f e (fun y => B (false, y)) C G)
    (hat : a ≤ t) (haf : a ≤ f) (hbe : b ≤ e) :
    Implements step code a e A C fun x => D x >>= fun y => if y.1 then F y.2 else G y.2 := by
  intro x s hx
  have hfirst := (h x s hx).mono (fun _ hy => hy) fun _ hcomes => hcomes.mono le_rfl hbe
  apply hfirst.bind
  rintro ⟨_ | _, y⟩ ⟨s', hB, hcomes⟩
  · have hto := hcomes.mono (le_refl a) hbe
    apply (hf y s' hB).mono
    · rintro z ⟨s'', hC, hcomes'⟩
      exact ⟨s'', hC, hto.trans (hcomes'.mono haf le_rfl)⟩
    · intro e hcomes'
      exact hto.trans (hcomes'.mono haf le_rfl)
  · have hto := hcomes.mono (le_refl a) hbe
    apply (ht y s' hB).mono
    · rintro z ⟨s'', hC, hcomes'⟩
      exact ⟨s'', hC, hto.trans (hcomes'.mono hat le_rfl)⟩
    · intro e hcomes'
      exact hto.trans (hcomes'.mono hat le_rfl)

end Squirt.CodeBlocks
