import Mathlib.Logic.Relation
import Mathlib.Order.Basic

/-!
# Regular patterns

Patterns over atoms, and the places of a text that they lead to: an atom leads from one place to
another, and patterns put atoms one after the other, choose among them or repeat them.
-/

namespace RegularPatterns

variable {α β : Type*} {r r' : β → β → Prop} {x y z : β} {n : ℕ}

/-- `n` times one after the other -/
def Repeats (r : β → β → Prop) : ℕ → β → β → Prop
  | 0 => Eq
  | n + 1 => Relation.Comp (Repeats r n) r

theorem Repeats.mono (h : ∀ x y, r x y → r' x y) (hr : Repeats r n x y) : Repeats r' n x y := by
  induction n generalizing y with
  | zero => exact hr
  | succ n ih =>
    obtain ⟨z, hz, hlast⟩ := hr
    exact ⟨z, ih hz, h z y hlast⟩

inductive Pattern (α : Type*)
  | atom (a : α)
  | seq (p q : Pattern α)
  | alt (p q : Pattern α)
  /-- at least `lo` times, and at most `hi` times when there is a bound -/
  | times (p : Pattern α) (lo : ℕ) (hi : Option ℕ)

/-- The number of repetitions is allowed. -/
def Allowed (lo : ℕ) (hi : Option ℕ) (n : ℕ) : Prop := lo ≤ n ∧ ∀ h ∈ hi, n ≤ h

namespace Pattern

/-- The pattern leads from one place to another, by what its atoms do. -/
def Matches (step : α → β → β → Prop) : Pattern α → β → β → Prop
  | atom a => step a
  | seq p q => Relation.Comp (p.Matches step) (q.Matches step)
  | alt p q => fun x y => p.Matches step x y ∨ q.Matches step x y
  | times p lo hi => fun x y => ∃ n, Allowed lo hi n ∧ Repeats (p.Matches step) n x y

variable {step step' : α → β → β → Prop} {p : Pattern α}

end Pattern

section Forward

variable [Preorder β]

theorem Repeats.le (h : ∀ x y, r x y → x ≤ y) (hr : Repeats r n x y) : x ≤ y := by
  induction n generalizing y with
  | zero => exact hr.le
  | succ n ih =>
    obtain ⟨z, hz, hlast⟩ := hr
    exact (ih hz).trans (h z y hlast)

/-- When every repetition goes forward, all of them are between the first place and the last. -/
theorem Repeats.within (h : ∀ x y, r x y → x ≤ y) (hr : Repeats r n x y) {a b : β} (ha : a ≤ x)
    (hb : y ≤ b) : Repeats (fun x y => r x y ∧ a ≤ x ∧ y ≤ b) n x y := by
  induction n generalizing y with
  | zero => exact hr
  | succ n ih =>
    obtain ⟨z, hz, hlast⟩ := hr
    exact ⟨z, ih hz ((h z y hlast).trans hb), hlast, ha.trans (hz.le h), hb⟩

variable {step : α → β → β → Prop} {p : Pattern α}

theorem Pattern.Matches.le (h : ∀ a x y, step a x y → x ≤ y) (hp : p.Matches step x y) : x ≤ y := by
  induction p generalizing x y with
  | atom a => exact h a x y hp
  | seq p q ihp ihq =>
    obtain ⟨z, hz, hq⟩ := hp
    exact (ihp hz).trans (ihq hq)
  | alt p q ihp ihq => exact hp.elim ihp ihq
  | times p lo hi ih =>
    obtain ⟨n, -, hp⟩ := hp
    exact hp.le fun x y => ih

/-- When the atoms go forward, those of a match are between its ends. -/
theorem Pattern.Matches.within (h : ∀ a x y, step a x y → x ≤ y) (hp : p.Matches step x y) {a b : β}
    (ha : a ≤ x) (hb : y ≤ b) :
    p.Matches (fun e x y => step e x y ∧ a ≤ x ∧ y ≤ b) x y := by
  induction p generalizing x y with
  | atom e => exact ⟨hp, ha, hb⟩
  | seq p q ihp ihq =>
    obtain ⟨z, hz, hq⟩ := hp
    exact ⟨z, ihp hz ha ((hq.le h).trans hb), ihq hq (ha.trans (hz.le h)) hb⟩
  | alt p q ihp ihq => exact hp.imp (ihp · ha hb) (ihq · ha hb)
  | times p lo hi ih =>
    obtain ⟨n, hn, hp⟩ := hp
    have hplaces := hp.within (fun x y => Pattern.Matches.le h) ha hb
    exact ⟨n, hn, hplaces.mono fun x y hxy => ih hxy.1 hxy.2.1 hxy.2.2⟩

end Forward

end RegularPatterns
