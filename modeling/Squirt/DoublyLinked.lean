import Mathlib.Data.List.Nodup
import Mathlib.Logic.Function.Basic

/-!
# Doubly linked lists

Every cell has at most one successor and at most one predecessor. Cells are put in at the front, cut
out anywhere, and a list is put in front of another.
-/

namespace Squirt.DoublyLinked

variable {α : Type*} {next prev next' prev' : α → Option α} {first before : Option α}
  {l l' l₁ l₂ : List α} {a c : α}

/-- The cells `l` are linked in this order in both directions, from `first` to the end; what comes
before them is `before`. -/
def Linked (next prev : α → Option α) : Option α → Option α → List α → Prop
  | _, first, [] => first = none
  | before, first, a :: l => first = some a ∧ prev a = before ∧ Linked next prev (some a) (next a) l

namespace Linked

theorem congr (h : Linked next prev before first l) (hnext : ∀ a ∈ l, next' a = next a)
    (hprev : ∀ a ∈ l, prev' a = prev a) : Linked next' prev' before first l := by
  induction l generalizing before first with
  | nil => exact h
  | cons a l ih =>
    obtain ⟨hfirst, hbefore, h⟩ := h
    refine ⟨hfirst, (hprev a List.mem_cons_self).trans hbefore, ?_⟩
    rw [hnext a List.mem_cons_self]
    exact ih h (fun b hb => hnext b (List.mem_cons_of_mem _ hb))
      fun b hb => hprev b (List.mem_cons_of_mem _ hb)

theorem unique (h : Linked next prev before first l) {before' : Option α}
    (h' : Linked next prev before' first l') : l = l' := by
  induction l generalizing before before' first l' with
  | nil =>
    cases l' with
    | nil => rfl
    | cons b l' => exact absurd (h'.1.symm.trans h) (by simp)
  | cons a l ih =>
    cases l' with
    | nil => exact absurd (h.1.symm.trans h') (by simp)
    | cons b l' =>
      obtain rfl : a = b := Option.some.inj (h.1.symm.trans h'.1)
      rw [ih h.2.2 h'.2.2]

theorem of_append (h : Linked next prev before first (l₁ ++ a :: l₂)) :
    Linked next prev (some a) (next a) l₂ := by
  induction l₁ generalizing before first with
  | nil => exact h.2.2
  | cons b l₁ ih => exact ih h.2.2

/-- A cell that came twice would have the same rest both times. -/
theorem nodup (h : Linked next prev before first l) : l.Nodup := by
  induction l generalizing before first with
  | nil => exact List.nodup_nil
  | cons a l ih =>
    rw [List.nodup_cons]
    refine ⟨fun ha => ?_, ih h.2.2⟩
    obtain ⟨l₁, l₂, rfl⟩ := List.append_of_mem ha
    have htail : Linked next prev (some a) (next a) (l₁ ++ a :: l₂) := h.2.2
    have hlength := congrArg List.length (htail.of_append.unique htail)
    rw [List.length_append, List.length_cons] at hlength
    omega

theorem head (h : Linked next prev before first l) : first = l.head? := by
  cases l with
  | nil => exact h
  | cons a l => exact h.1

/-- What comes before a cell that is not the first is in the list. -/
theorem prev_mem (h : Linked next prev before first l) {b : α} (hb : b ∈ l) :
    prev b = before ∧ first = some b ∨ ∃ a ∈ l, prev b = some a := by
  induction l generalizing before first with
  | nil => cases hb
  | cons a l ih =>
    obtain ⟨hfirst, hbefore, h⟩ := h
    cases hb with
    | head => exact .inl ⟨hbefore, hfirst⟩
    | tail _ hb =>
      cases ih h hb with
      | inl hb => exact .inr ⟨a, List.mem_cons_self, hb.1⟩
      | inr hb =>
        obtain ⟨c, hc, hprev⟩ := hb
        exact .inr ⟨c, List.mem_cons_of_mem _ hc, hprev⟩

/-- What comes after a cell is in the list. -/
theorem next_mem (h : Linked next prev before first l) {b c : α} (hb : b ∈ l)
    (hc : next b = some c) : c ∈ l := by
  obtain ⟨l₁, l₂, rfl⟩ := List.append_of_mem hb
  have hrest := h.of_append.head
  rw [hc] at hrest
  have hmem : c ∈ l₂ := List.mem_of_mem_head? hrest.symm
  exact List.mem_append_right _ (List.mem_cons_of_mem _ hmem)

variable [DecidableEq α]

/-- The predecessor of the first cell is another one. -/
theorem setBefore (h : Linked next prev before (some a) l) (b : Option α) :
    Linked next (Function.update prev a b) b (some a) l := by
  have hnodup := h.nodup
  cases l with
  | nil => cases h
  | cons a' l =>
    obtain ⟨hfirst, -, h⟩ := h
    obtain rfl := Option.some.inj hfirst
    rw [List.nodup_cons] at hnodup
    refine ⟨rfl, Function.update_self .., h.congr (fun b _ => rfl) fun b hb => ?_⟩
    exact Function.update_of_ne (ne_of_mem_of_not_mem hb hnodup.1) _ _

/-- The links after a cell is put in at the front -/
def pushed (next prev : α → Option α) (first : Option α) (c : α) : (α → Option α) × (α → Option α) :=
  (Function.update next c first, match first with
    | none => Function.update prev c none
    | some a => Function.update (Function.update prev c none) a (some c))

theorem push (h : Linked next prev none first l) (hc : c ∉ l) :
    Linked (pushed next prev first c).1 (pushed next prev first c).2 none (some c) (c :: l) := by
  have hne : ∀ b ∈ l, b ≠ c := fun b hb => ne_of_mem_of_not_mem hb hc
  cases first with
  | none =>
    refine ⟨rfl, Function.update_self .., ?_⟩
    cases l with
    | nil => exact Function.update_self ..
    | cons a l => cases h.1
  | some a =>
    have ha : a ∈ l := List.mem_of_mem_head? h.head.symm
    refine ⟨rfl, ?_, ?_⟩
    · exact (Function.update_of_ne (hne a ha).symm _ _).trans (Function.update_self ..)
    · have hkept : Linked next (Function.update prev c none) none (some a) l :=
        h.congr (fun b _ => rfl) fun b hb => Function.update_of_ne (hne b hb) _ _
      have hnext : Function.update next c (some a) c = some a := Function.update_self ..
      dsimp only [pushed]
      rw [hnext]
      exact (hkept.setBefore (some c)).congr (fun b hb => Function.update_of_ne (hne b hb) _ _)
        fun b _ => rfl

/-- The links, without those of the cell itself, after it is cut out -/
def cut (next prev : α → Option α) (c : α) : (α → Option α) × (α → Option α) :=
  (match prev c with
    | none => next
    | some p => Function.update next p (next c),
  match next c with
    | none => prev
    | some n => Function.update prev n (prev c))

/-- What comes first after a cell is cut out -/
def without (next : α → Option α) (first : Option α) (c : α) : Option α :=
  if first = some c then next c else first

private theorem cut_next (h : Linked next prev (some a) first l) (hc : c ∈ l) (ha : a ∉ l) :
    (cut next prev c).1 a = if first = some c then next c else next a := by
  have hprev : prev c = some a ↔ first = some c := by
    cases l with
    | nil => cases hc
    | cons b l =>
      have hnodup := h.nodup
      obtain ⟨rfl, hbefore, h⟩ := h
      rw [List.mem_cons, not_or] at ha
      rw [List.nodup_cons] at hnodup
      by_cases hbc : b = c
      · simp [← hbc, hbefore]
      · have hc : c ∈ l := (List.mem_cons.mp hc).resolve_left (Ne.symm hbc)
        have hne : prev c ≠ some a := by
          cases h.prev_mem hc with
          | inl hfirst =>
            rw [hfirst.1]
            simpa using Ne.symm ha.1
          | inr hother =>
            obtain ⟨d, hd, hprev⟩ := hother
            rw [hprev]
            simpa using ne_of_mem_of_not_mem hd ha.2
        simp [hne, hbc]
  rw [cut]
  split
  · rename_i hnone
    rw [if_neg (by simp [← hprev, hnone])]
  · rename_i p hp
    rw [hp, Option.some_inj] at hprev
    change Function.update next p (next c) a = _
    rw [Function.update_apply]
    split_ifs with hpa hfirst hfirst
    · rfl
    · exact absurd (hprev.mp hpa.symm) hfirst
    · exact absurd (hprev.mpr hfirst).symm hpa
    · rfl

/-- A cell is cut out of a list. -/
theorem cutOut (h : Linked next prev before first l) (hc : c ∈ l)
    (hbefore : ∀ b ∈ before, b ∉ l) :
    Linked (cut next prev c).1 (cut next prev c).2 before (without next first c) (l.erase c) := by
  induction l generalizing before first with
  | nil => cases hc
  | cons a l ih =>
    have hnodup := h.nodup
    rw [List.nodup_cons] at hnodup
    have hthis : prev a = before := h.2.1
    have hall := h
    obtain ⟨rfl, -, h⟩ := h
    by_cases hac : a = c
    · subst hac
      rw [List.erase_cons_head, without, if_pos rfl]
      have hkept : ∀ {prev'}, Linked next prev' before (next a) l →
          Linked (cut next prev a).1 prev' before (next a) l := by
        intro prev' h
        refine h.congr (fun d hd => ?_) fun _ _ => rfl
        rw [cut, hthis]
        cases before with
        | none => rfl
        | some b =>
          have hb := hbefore b rfl
          exact Function.update_of_ne
            (ne_of_mem_of_not_mem hd fun hbl => hb (List.mem_cons_of_mem _ hbl)) _ _
      apply hkept
      rw [cut]
      cases hnext : next a with
      | none =>
        rw [hnext] at h
        cases l with
        | nil => rfl
        | cons b l => cases h.1
      | some n =>
        rw [hnext] at h
        rw [hthis]
        exact h.setBefore before
    · have hc : c ∈ l := (List.mem_cons.mp hc).resolve_left (Ne.symm hac)
      have hrest := ih h hc fun b hb => by
        obtain rfl := Option.mem_some.mp hb
        exact hnodup.1
      have hprev : (cut next prev c).2 a = prev a := by
        rw [cut]
        cases hnext : next c with
        | none => rfl
        | some n =>
          exact Function.update_of_ne (ne_of_mem_of_not_mem (h.next_mem hc hnext) hnodup.1).symm _ _
      rw [List.erase_cons_tail (by simpa using hac), without, if_neg (by simpa using hac)]
      refine ⟨rfl, hprev.trans hthis, ?_⟩
      rw [h.cut_next hc hnodup.1]
      exact hrest

omit [DecidableEq α] in
/-- The first cell is the one with none before it. -/
theorem prev_eq_none_iff (h : Linked next prev none first l) (hc : c ∈ l) :
    prev c = none ↔ first = some c := by
  constructor
  · intro hnone
    cases h.prev_mem hc with
    | inl hfirst => exact hfirst.2
    | inr hother =>
      obtain ⟨d, -, hprev⟩ := hother
      rw [hnone] at hprev
      cases hprev
  · intro hfirst
    cases l with
    | nil => cases hc
    | cons a l =>
      obtain rfl := Option.some.inj (h.1.symm.trans hfirst)
      exact h.2.1

/-- A list is put in front of another. -/
theorem join (h : Linked next prev before first (l₁ ++ [a])) {first₂ : Option α}
    (h₂ : Linked next prev none first₂ l₂) (hdisjoint : ∀ b ∈ l₁ ++ [a], b ∉ l₂) :
    Linked (Function.update next a first₂) (first₂.elim prev fun b => Function.update prev b a)
      before first (l₁ ++ a :: l₂) := by
  have ha : a ∉ l₂ := hdisjoint a (by simp)
  have hprev : ∀ b ∈ l₁ ++ [a], (first₂.elim prev fun b => Function.update prev b a) b = prev b := by
    intro b hb
    cases first₂ with
    | none => rfl
    | some d =>
      have hd : d ∈ l₂ := List.mem_of_mem_head? h₂.head.symm
      exact Function.update_of_ne (ne_of_mem_of_not_mem hd (hdisjoint b hb)).symm _ _
  have hlast : Linked (Function.update next a first₂)
      (first₂.elim prev fun b => Function.update prev b a) (some a) first₂ l₂ := by
    have hnext : ∀ b ∈ l₂, Function.update next a first₂ b = next b := fun b hb =>
      Function.update_of_ne (ne_of_mem_of_not_mem hb ha) _ _
    cases first₂ with
    | none =>
      cases l₂ with
      | nil => rfl
      | cons b l => cases h₂.1
    | some d => exact (h₂.setBefore (some a)).congr hnext fun _ _ => rfl
  induction l₁ generalizing before first with
  | nil =>
    refine ⟨h.1, (hprev a (by simp)).trans h.2.1, ?_⟩
    rw [Function.update_self]
    exact hlast
  | cons b l₁ ih =>
    have hnodup := h.nodup
    rw [List.cons_append, List.nodup_cons] at hnodup
    have hba : b ≠ a := fun heq => hnodup.1 (by simp [heq])
    refine ⟨h.1, (hprev b (by simp)).trans h.2.1, ?_⟩
    rw [Function.update_of_ne hba]
    exact ih h.2.2 (fun d hd => hdisjoint d (List.mem_cons_of_mem _ hd))
      fun d hd => hprev d (List.mem_cons_of_mem _ hd)

end Linked

end Squirt.DoublyLinked
