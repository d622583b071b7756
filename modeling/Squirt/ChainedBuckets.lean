import Mathlib.Data.List.Nodup
import Mathlib.Data.Set.Card

/-!
# Buckets of chained cells

Every cell has at most one successor. A chain lists the cells from a first one on; a family of
buckets keeps a set of cells in chains, each cell in the bucket it is placed in. Linking a cell
in at the head of its bucket keeps the family, and so does cutting one out.
-/

namespace Squirt.ChainedBuckets

variable {α : Type*} {next next' : α → Option α} {first last : Option α} {l l' l₁ l₂ : List α}
  {a b p : α}

/-- The cells `l` are linked in this order, from `first` up to `last`. -/
def Segment (next : α → Option α) : Option α → List α → Option α → Prop
  | first, [], last => first = last
  | first, a :: l, last => first = some a ∧ Segment next (next a) l last

/-- The cells `l` are linked in this order, from `first` to the end. -/
def Chain (next : α → Option α) (first : Option α) (l : List α) : Prop := Segment next first l none

theorem Segment.congr (h : Segment next first l last) (heq : ∀ a ∈ l, next' a = next a) :
    Segment next' first l last := by
  induction l generalizing first with
  | nil => exact h
  | cons a l ih =>
    constructor
    · exact h.1
    · rw [heq a List.mem_cons_self]
      exact ih h.2 fun b hb => heq b (List.mem_cons_of_mem _ hb)

theorem segment_append : Segment next first (l₁ ++ l₂) last ↔
    ∃ mid, Segment next first l₁ mid ∧ Segment next mid l₂ last := by
  induction l₁ generalizing first with
  | nil =>
    constructor
    · intro h
      exact ⟨first, rfl, h⟩
    · rintro ⟨mid, rfl, h⟩
      exact h
  | cons a l₁ ih =>
    constructor
    · rintro ⟨hfirst, h⟩
      obtain ⟨mid, h₁, h₂⟩ := ih.mp h
      exact ⟨mid, ⟨hfirst, h₁⟩, h₂⟩
    · rintro ⟨mid, ⟨hfirst, h₁⟩, h₂⟩
      exact ⟨hfirst, ih.mpr ⟨mid, h₁, h₂⟩⟩

namespace Chain

theorem congr (h : Chain next first l) (heq : ∀ a ∈ l, next' a = next a) : Chain next' first l :=
  Segment.congr h heq

theorem congr_all {heads : List (Option α)} {ls : List (List α)}
    (h : List.Forall₂ (Chain next) heads ls) (heq : ∀ a ∈ ls.flatten, next' a = next a) :
    List.Forall₂ (Chain next') heads ls := by
  induction h with
  | nil => exact .nil
  | cons hl _ ih =>
    rw [List.flatten_cons] at heq
    constructor
    · exact hl.congr fun a ha => heq a (List.mem_append_left _ ha)
    · exact ih fun a ha => heq a (List.mem_append_right _ ha)

theorem unique (h : Chain next first l) (h' : Chain next first l') : l = l' := by
  induction l generalizing first l' with
  | nil =>
    cases l' with
    | nil => rfl
    | cons b l' => exact absurd (h'.1.symm.trans h) (by simp)
  | cons a l ih =>
    cases l' with
    | nil => exact absurd (h.1.symm.trans h') (by simp)
    | cons b l' =>
      obtain rfl : a = b := Option.some.inj (h.1.symm.trans h'.1)
      rw [ih h.2 h'.2]

theorem of_append (h : Chain next first (l₁ ++ a :: l₂)) : Chain next (next a) l₂ := by
  obtain ⟨mid, -, hmid⟩ := segment_append.mp h
  exact hmid.2

/-- A cell that came twice would have the same rest both times. -/
theorem nodup (h : Chain next first l) : l.Nodup := by
  induction l generalizing first with
  | nil => exact List.nodup_nil
  | cons a l ih =>
    rw [List.nodup_cons]
    refine ⟨fun ha => ?_, ih h.2⟩
    obtain ⟨l₁, l₂, rfl⟩ := List.append_of_mem ha
    have htail : Chain next (next a) (l₁ ++ a :: l₂) := h.2
    have hlength := congrArg List.length (htail.of_append.unique htail)
    rw [List.length_append, List.length_cons] at hlength
    omega

variable [DecidableEq α]

theorem push (h : Chain next first l) (ha : a ∉ l) :
    Chain (Function.update next a first) (some a) (a :: l) := by
  constructor
  · rfl
  · rw [Function.update_self]
    apply h.congr
    intro b hb
    exact Function.update_of_ne (ne_of_mem_of_not_mem hb ha) _ _

/-- The cell behind `p` is cut out. -/
theorem unlink (h : Chain next first (l₁ ++ p :: a :: l₂)) :
    Chain (Function.update next p (next a)) first (l₁ ++ p :: l₂) := by
  have hnodup := h.nodup
  obtain ⟨mid, h₁, hp, ha, h₂⟩ := segment_append.mp h
  have hsame : ∀ b ∈ l₁ ++ l₂, Function.update next p (next a) b = next b := by
    intro b hb
    apply Function.update_of_ne
    rintro rfl
    rw [List.nodup_middle, List.nodup_cons] at hnodup
    apply hnodup.1
    rcases List.mem_append.mp hb with hb | hb
    · exact List.mem_append_left _ hb
    · exact List.mem_append_right _ (List.mem_cons_of_mem _ hb)
  apply segment_append.mpr
  refine ⟨mid, h₁.congr fun b hb => hsame b (List.mem_append_left _ hb), hp, ?_⟩
  rw [Function.update_self]
  exact h₂.congr fun b hb => hsame b (List.mem_append_right _ hb)

end Chain

/-- Go along a chain up to the first cell that is meant, with the cell before it. -/
def search (next : α → Option α) (found : α → Bool) :
    ℕ → Option α → Option α → Option (Option α × Option α)
  | 0, _, _ => none
  | fuel + 1, prev, current =>
    match current with
    | none => some (prev, none)
    | some a => if found a then some (prev, some a) else search next found fuel (some a) (next a)

/-- What a search finds. -/
inductive Found (found : α → Bool) (l : List α) (prev : Option α) :
    Option (Option α × Option α) → Prop
  | hit (l₁ : List α) (a : α) (l₂ : List α) (hl : l = l₁ ++ a :: l₂) (ha : found a = true) :
    Found found l prev (some (l₁.getLast?.or prev, some a))
  | miss (last : Option α) (hno : ∀ a ∈ l, found a = false) : Found found l prev (some (last, none))

theorem Chain.search {found : α → Bool} {fuel : ℕ} (h : Chain next first l)
    (hfuel : l.length < fuel)
    (prev : Option α) : Found found l prev (search next found fuel prev first) := by
  induction l generalizing first fuel prev with
  | nil =>
    obtain ⟨fuel, rfl⟩ := Nat.exists_eq_succ_of_ne_zero (by omega : fuel ≠ 0)
    obtain rfl : first = none := h
    exact .miss _ (by simp)
  | cons a l ih =>
    obtain ⟨fuel, rfl⟩ := Nat.exists_eq_succ_of_ne_zero (by omega : fuel ≠ 0)
    obtain ⟨rfl, h⟩ := h
    rw [ChainedBuckets.search]
    cases ha : found a with
    | true => exact .hit [] a l rfl ha
    | false =>
      have hrest := ih h (by simpa using hfuel) (some a)
      rw [if_neg Bool.false_ne_true]
      generalize ChainedBuckets.search next found fuel (some a) (next a) = r at hrest
      cases hrest with
      | hit l₁ b l₂ hl hb =>
        have hlast : (a :: l₁).getLast?.or prev = l₁.getLast?.or (some a) := by
          cases l₁ <;> simp [List.getLast?_cons]
        rw [← hlast]
        exact .hit (a :: l₁) b l₂ (by rw [hl]; rfl) hb
      | miss last hno =>
        refine .miss last fun b hb => ?_
        rcases List.mem_cons.mp hb with rfl | hb
        · exact ha
        · exact hno b hb

/-- The cells `S` in `n` buckets. -/
structure Buckets (next : α → Option α) (head : ℕ → Option α) (n : ℕ) (place : α → ℕ)
    (S : Set α) : Prop where
  chain : ∀ i < n, ∃ l, Chain next (head i) l ∧ ∀ a, a ∈ l ↔ a ∈ S ∧ place a = i
  place_lt : ∀ a ∈ S, place a < n

namespace Buckets

variable {head head' : ℕ → Option α} {n : ℕ} {place place' : α → ℕ} {S : Set α} {i fuel : ℕ}
  {found : α → Bool} {prev : Option α}

theorem empty (next : α → Option α) (n : ℕ) (place : α → ℕ) :
    Buckets next (fun _ => none) n place ∅ :=
  ⟨fun _ _ => ⟨[], rfl, by simp⟩, by simp⟩

theorem congr (h : Buckets next head n place S) (hnext : ∀ a ∈ S, next' a = next a)
    (hhead : ∀ i < n, head' i = head i) (hplace : ∀ a ∈ S, place' a = place a) :
    Buckets next' head' n place' S := by
  constructor
  · intro i hi
    obtain ⟨l, hl, hmem⟩ := h.chain i hi
    refine ⟨l, hhead i hi ▸ hl.congr fun a ha => hnext a ((hmem a).mp ha).1, fun a => ?_⟩
    rw [hmem]
    constructor
    · rintro ⟨ha, hi⟩
      exact ⟨ha, (hplace a ha).trans hi⟩
    · rintro ⟨ha, hi⟩
      exact ⟨ha, (hplace a ha).symm.trans hi⟩
  · intro a ha
    rw [hplace a ha]
    exact h.place_lt a ha

theorem length_le (_h : Buckets next head n place S) (hl : Chain next first l)
    (hmem : ∀ a, a ∈ l ↔ a ∈ S ∧ place a = i) : (l.length : ℕ∞) ≤ S.encard := by
  classical
  have hcard : ((l.toFinset : Set α)).encard = l.length := by
    rw [Set.encard_coe_eq_coe_finsetCard, List.toFinset_card_of_nodup hl.nodup]
  rw [← hcard]
  apply Set.encard_le_encard
  intro a ha
  exact ((hmem a).mp (List.mem_toFinset.mp (Finset.mem_coe.mp ha))).1

/-- A search of the bucket `i`. -/
theorem search (h : Buckets next head n place S) (hi : i < n) (hfuel : S.encard < fuel)
    (found : α → Bool) : ∃ l, Chain next (head i) l ∧ (∀ a, a ∈ l ↔ a ∈ S ∧ place a = i) ∧
      Found found l none (ChainedBuckets.search next found fuel none (head i)) := by
  obtain ⟨l, hl, hmem⟩ := h.chain i hi
  have hlength : (l.length : ℕ∞) < fuel := (h.length_le hl hmem).trans_lt hfuel
  exact ⟨l, hl, hmem, hl.search (by exact_mod_cast hlength) none⟩

/-- The bucket `i` loses the cell `a`, and the chains of the others are as they were. -/
theorem remove (h : Buckets next head n place S) (hia : place a = i)
    (hother : ∀ j < n, j ≠ i → head' j = head j)
    (hsame : ∀ b ∈ S, place b ≠ i → next' b = next b)
    (hl : Chain next' (head' i) l) (hmem : ∀ b, b ∈ l ↔ (b ∈ S ∧ place b = i) ∧ b ≠ a) :
    Buckets next' head' n place (S \ {a}) := by
  constructor
  · intro j hj
    by_cases hji : j = i
    · subst hji
      refine ⟨l, hl, fun b => ?_⟩
      rw [hmem, Set.mem_sdiff, Set.mem_singleton_iff]
      tauto
    · obtain ⟨l', hl', hmem'⟩ := h.chain j hj
      refine ⟨l', ?_, fun b => ?_⟩
      · rw [hother j hj hji]
        apply hl'.congr
        intro b hb
        obtain ⟨hbS, hbj⟩ := (hmem' b).mp hb
        exact hsame b hbS (hbj.trans_ne hji)
      · rw [hmem', Set.mem_sdiff, Set.mem_singleton_iff]
        constructor
        · rintro ⟨hb, hbj⟩
          exact ⟨⟨hb, fun hba => hji (hbj.symm.trans (hba ▸ hia))⟩, hbj⟩
        · rintro ⟨⟨hb, -⟩, hbj⟩
          exact ⟨hb, hbj⟩
  · intro b hb
    exact h.place_lt b hb.1

/-- The first cell of a bucket is cut out. -/
theorem remove_first (h : Buckets next head n place S)
    (hl : Chain next (head i) (a :: l)) (hmem : ∀ b, b ∈ a :: l ↔ b ∈ S ∧ place b = i) :
    Buckets next (Function.update head i (next a)) n place (S \ {a}) := by
  have hnodup := List.nodup_cons.mp hl.nodup
  refine h.remove (l := l) ((hmem a).mp List.mem_cons_self).2
    (fun j _ hj => Function.update_of_ne hj _ _) (fun _ _ _ => rfl) ?_ fun b => ?_
  · rw [Function.update_self]
    exact hl.2
  · rw [← hmem, List.mem_cons]
    constructor
    · intro hb
      exact ⟨.inr hb, fun hba => hnodup.1 (hba ▸ hb)⟩
    · rintro ⟨rfl | hb, hne⟩
      · exact absurd rfl hne
      · exact hb

section Surgery

variable [DecidableEq α]

/-- A new cell at the head of its bucket. -/
theorem insert (h : Buckets next head n place S) (ha : a ∉ S) (hlt : place a < n) :
    Buckets (Function.update next a (head (place a))) (Function.update head (place a) (some a)) n
      place (insert a S) := by
  constructor
  · intro i hi
    obtain ⟨l, hl, hmem⟩ := h.chain i hi
    have hal : a ∉ l := fun hal => ha ((hmem a).mp hal).1
    by_cases hia : i = place a
    · subst hia
      refine ⟨a :: l, ?_, fun b => ?_⟩
      · rw [Function.update_self]
        exact hl.push hal
      · rw [List.mem_cons, hmem, Set.mem_insert_iff]
        constructor
        · rintro (rfl | ⟨hb, hplace⟩)
          · exact ⟨.inl rfl, rfl⟩
          · exact ⟨.inr hb, hplace⟩
        · rintro ⟨rfl | hb, hplace⟩
          · exact .inl rfl
          · exact .inr ⟨hb, hplace⟩
    · refine ⟨l, ?_, fun b => ?_⟩
      · rw [Function.update_of_ne hia]
        exact hl.congr fun b hb => Function.update_of_ne (ne_of_mem_of_not_mem hb hal) _ _
      · rw [hmem, Set.mem_insert_iff]
        constructor
        · rintro ⟨hb, hplace⟩
          exact ⟨.inr hb, hplace⟩
        · rintro ⟨rfl | hb, hplace⟩
          · exact absurd hplace.symm hia
          · exact ⟨hb, hplace⟩
  · intro b hb
    rcases hb with rfl | hb
    · exact hlt
    · exact h.place_lt b hb

/-- The cell behind `p` is cut out. -/
theorem remove_behind (h : Buckets next head n place S)
    (hl : Chain next (head i) (l₁ ++ p :: a :: l₂))
    (hmem : ∀ b, b ∈ l₁ ++ p :: a :: l₂ ↔ b ∈ S ∧ place b = i) :
    Buckets (Function.update next p (next a)) head n place (S \ {a}) := by
  have hp : place p = i := ((hmem p).mp (by simp)).2
  have hnodup := hl.nodup
  refine h.remove ((hmem a).mp (by simp)).2 (fun _ _ _ => rfl)
    (fun b _ hb => Function.update_of_ne (ne_of_apply_ne place (hb.trans_eq hp.symm)) _ _)
    hl.unlink fun b => ?_
  rw [← hmem]
  rw [show l₁ ++ p :: a :: l₂ = (l₁ ++ [p]) ++ a :: l₂ by simp] at hnodup ⊢
  rw [List.nodup_middle, List.nodup_cons] at hnodup
  rw [show l₁ ++ p :: l₂ = (l₁ ++ [p]) ++ l₂ by simp]
  constructor
  · intro hb
    refine ⟨?_, fun hba => hnodup.1 (hba ▸ hb)⟩
    rcases List.mem_append.mp hb with hb | hb
    · exact List.mem_append_left _ hb
    · exact List.mem_append_right _ (List.mem_cons_of_mem _ hb)
  · rintro ⟨hb, hne⟩
    rcases List.mem_append.mp hb with hb | hb
    · exact List.mem_append_left _ hb
    · exact List.mem_append_right _ ((List.mem_cons.mp hb).resolve_left hne)

end Surgery

/-- All chains, one after the other. -/
theorem lists (h : Buckets next head n place S) (m : ℕ) (hm : m ≤ n) :
    ∃ ls : List (List α), List.Forall₂ (Chain next) ((List.range m).map head) ls ∧
      ls.flatten.Nodup ∧ ∀ a, a ∈ ls.flatten ↔ a ∈ S ∧ place a < m := by
  induction m with
  | zero => exact ⟨[], .nil, List.nodup_nil, by simp⟩
  | succ m ih =>
    obtain ⟨ls, hls, hnodup, hmem⟩ := ih (by omega)
    obtain ⟨l, hl, hmeml⟩ := h.chain m (by omega)
    refine ⟨ls ++ [l], ?_, ?_, fun a => ?_⟩
    · rw [List.range_succ, List.map_append]
      exact List.rel_append hls (.cons hl .nil)
    · rw [List.flatten_append, List.flatten_singleton, List.nodup_append]
      refine ⟨hnodup, hl.nodup, fun a ha b hb hab => ?_⟩
      subst hab
      have hlt := ((hmem a).mp ha).2
      have heq := ((hmeml a).mp hb).2
      omega
    · rw [List.flatten_append, List.flatten_singleton, List.mem_append, hmem, hmeml]
      constructor
      · rintro (⟨ha, hlt⟩ | ⟨ha, rfl⟩)
        · exact ⟨ha, by omega⟩
        · exact ⟨ha, by omega⟩
      · rintro ⟨ha, hlt⟩
        rcases Nat.lt_succ_iff_lt_or_eq.mp hlt with hlt | heq
        · exact .inl ⟨ha, hlt⟩
        · exact .inr ⟨ha, heq⟩

end Buckets

end Squirt.ChainedBuckets
