import Mathlib.Logic.Equiv.Basic
import Mathlib.Order.Nat

/-!
# Heaps with halved indices

The parent of a position `c > 0` is `c / 2`, so that 0 is above 1 alone and what is below 1 is a
binary heap. A position that is out of order with its children moves down until it is not.
-/

namespace Squirt.HeapOrder

variable {α : Type*} {r : α → α → Prop} {f f' f'' : ℕ → α} {lo bottom root m : ℕ}

variable (r) in
/-- From the parent `lo` on, what lies at a position up to `bottom` is below its parent. -/
def HeapFrom (f : ℕ → α) (lo bottom : ℕ) : Prop :=
  ∀ c, 0 < c → c ≤ bottom → lo ≤ c / 2 → r (f c) (f (c / 2))

variable (r) in
/-- A heap from `lo` on but for the children of `root`; these are below the parent of `root`. -/
structure Sinking (f : ℕ → α) (lo bottom root : ℕ) : Prop where
  lo_le : lo ≤ root
  others : ∀ c, 0 < c → c ≤ bottom → lo ≤ c / 2 → c / 2 ≠ root → r (f c) (f (c / 2))
  grandchildren : 0 < root → lo ≤ root / 2 → ∀ c, 0 < c → c ≤ bottom → c / 2 = root →
    r (f c) (f (root / 2))

variable (r) in
/-- `m` is a position up to `bottom` that no child of `root` is above. -/
structure GreatestChild (f : ℕ → α) (bottom root m : ℕ) : Prop where
  le_bottom : m ≤ bottom
  half : m / 2 = root
  greatest : ∀ c, 0 < c → c ≤ bottom → c / 2 = root → r (f c) (f m)

theorem HeapFrom.sinking (h : HeapFrom r f (lo + 1) bottom) : Sinking r f lo bottom lo where
  lo_le := le_rfl
  others c hc hle hlo hne := h c hc hle (by omega)
  grandchildren hpos hhalf := by omega

/-- There are no parents behind the middle. -/
theorem heapFrom_of_lt (h : bottom < 2 * lo) : HeapFrom r f lo bottom := by
  intro c _ hle hlo
  omega

theorem Sinking.swap (h : Sinking r f lo bottom root) (hm : GreatestChild r f bottom root m)
    (hne : root ≠ m) (hlt : r (f root) (f m)) :
    Sinking r (f ∘ Equiv.swap root m) lo bottom m := by
  have hhalf := hm.half
  have hmpos : 0 < m := by omega
  have hroot : root < m := by omega
  have hswap : ∀ c, c ≠ root → c ≠ m → (f ∘ Equiv.swap root m) c = f c := fun c hcr hcm =>
    congrArg f (Equiv.swap_apply_of_ne_of_ne hcr hcm)
  have hleft : (f ∘ Equiv.swap root m) root = f m := congrArg f (Equiv.swap_apply_left root m)
  have hright : (f ∘ Equiv.swap root m) m = f root := congrArg f (Equiv.swap_apply_right root m)
  refine ⟨h.lo_le.trans hroot.le, ?_, ?_⟩
  · intro c hc hle hlo hcm
    by_cases hc_m : c = m
    · rw [hc_m, hright, hhalf, hleft]
      exact hlt
    by_cases hc_root : c = root
    · -- The child that comes up was a grandchild of what is above it.
      have hpos : 0 < root := hc_root ▸ hc
      rw [hc_root, hleft, hswap _ (by omega) (by omega)]
      exact h.grandchildren hpos (hc_root ▸ hlo) m hmpos hm.le_bottom hhalf
    rw [hswap c hc_root hc_m]
    by_cases hparent : c / 2 = root
    · rw [hparent, hleft]
      exact hm.greatest c hc hle hparent
    · rw [hswap _ hparent hcm]
      exact h.others c hc hle hlo hparent
  · intro _ _ c hc hle hcm
    rw [hswap c (by omega) (by omega), hhalf, hleft, ← hcm]
    exact h.others c hc hle (by have := h.lo_le; omega) (by omega)

theorem Sinking.heapFrom (h : Sinking r f lo bottom root)
    (hroot : ∀ c, 0 < c → c ≤ bottom → c / 2 = root → r (f c) (f root)) :
    HeapFrom r f lo bottom := by
  intro c hc hle hlo
  by_cases hparent : c / 2 = root
  · rw [hparent]
    exact hroot c hc hle hparent
  · exact h.others c hc hle hlo hparent

/-- Nothing is above the first position of a heap. -/
theorem HeapFrom.le_first [Std.Refl r] [IsTrans α r] (h : HeapFrom r f 0 bottom) :
    ∀ c ≤ bottom, r (f c) (f 0) := by
  intro c
  induction c using Nat.strong_induction_on with
  | _ c ih =>
    intro hle
    obtain rfl | hc := Nat.eq_zero_or_pos c
    · exact refl _
    · exact IsTrans.trans _ _ _ (h c hc hle (Nat.zero_le _)) (ih (c / 2) (by omega) (by omega))

/-! ## Positions that are rearranged -/

/-- The values up to `bottom` have changed places among each other, the others have stayed. -/
structure Rearranged (bottom : ℕ) (f f' : ℕ → α) : Prop where
  above : ∀ k, bottom < k → f' k = f k
  below : ∀ k ≤ bottom, ∃ j ≤ bottom, f' k = f j

theorem Rearranged.refl (bottom : ℕ) (f : ℕ → α) : Rearranged bottom f f :=
  ⟨fun _ _ => rfl, fun k hk => ⟨k, hk, rfl⟩⟩

theorem Rearranged.trans (h : Rearranged bottom f f') (h' : Rearranged bottom f' f'') :
    Rearranged bottom f f'' where
  above k hk := (h'.above k hk).trans (h.above k hk)
  below k hk := by
    obtain ⟨j, hj, hkj⟩ := h'.below k hk
    obtain ⟨i, hi, hji⟩ := h.below j hj
    exact ⟨i, hi, hkj.trans hji⟩

theorem Rearranged.swap {i j : ℕ} (hi : i ≤ bottom) (hj : j ≤ bottom) (f : ℕ → α) :
    Rearranged bottom f (f ∘ Equiv.swap i j) where
  above k hk := congrArg f (Equiv.swap_apply_of_ne_of_ne (by omega) (by omega))
  below k hk := by
    refine ⟨Equiv.swap i j k, ?_, rfl⟩
    rw [Equiv.swap_apply_def]
    split_ifs <;> assumption

/-! ## The greatest one at the end -/

variable (r) in
/-- A heap up to `last`, and behind it, up to `n`, in order what is above all of the heap -/
structure Extracting (f : ℕ → α) (last n : ℕ) : Prop where
  heap : HeapFrom r f 0 last
  sorted : ∀ j k, last < k → j < k → k < n → r (f j) (f k)

theorem Extracting.start {n : ℕ} (h : HeapFrom r f 0 (n - 1)) : Extracting r f (n - 1) n where
  heap := h
  sorted j k hlast _ hn := by omega

/-- After the first value has been swapped with the last one of the heap, the heap is in order but
for its first position. -/
theorem Extracting.sinking {last n : ℕ} (h : Extracting r f (last + 1) n) :
    Sinking r (f ∘ Equiv.swap 0 (last + 1)) 0 last 0 where
  lo_le := le_rfl
  others c hc hle _ hne := by
    have hswap : ∀ c, c ≠ 0 → c ≤ last → (f ∘ Equiv.swap 0 (last + 1)) c = f c := fun c h0 hl =>
      congrArg f (Equiv.swap_apply_of_ne_of_ne h0 (by omega))
    rw [hswap c (by omega) hle, hswap _ hne (by omega)]
    exact h.heap c hc (by omega) (Nat.zero_le _)
  grandchildren hpos := absurd hpos (lt_irrefl 0)

theorem Extracting.next [Std.Refl r] [IsTrans α r] {last n : ℕ} (h : Extracting r f (last + 1) n)
    (hre : Rearranged last (f ∘ Equiv.swap 0 (last + 1)) f') (hheap : HeapFrom r f' 0 last) :
    Extracting r f' last n where
  heap := hheap
  sorted j k hlast hjk hn := by
    -- The value behind the heap is the one that was first; all others were behind it before.
    have hold : ∃ i, f' j = f i ∧ i ≤ k ∧ (last + 1 < k → i < k) := by
      obtain hgt | hle := Nat.lt_or_ge last j
      · refine ⟨Equiv.swap 0 (last + 1) j, hre.above j hgt, ?_⟩
        rw [Equiv.swap_apply_def]
        split_ifs <;> omega
      · obtain ⟨i, hi, heq⟩ := hre.below j hle
        refine ⟨Equiv.swap 0 (last + 1) i, heq, ?_⟩
        rw [Equiv.swap_apply_def]
        split_ifs <;> omega
    obtain ⟨i, hji, hfirst, hbehind⟩ := hold
    rw [hji, hre.above k hlast]
    obtain hk | hk := Nat.eq_or_lt_of_le (Nat.succ_le_of_lt hlast)
    · rw [← hk]
      change r (f i) (f (Equiv.swap 0 (last + 1) (last + 1)))
      rw [Equiv.swap_apply_right]
      exact h.heap.le_first i (hfirst.trans_eq hk.symm)
    · change r (f i) (f (Equiv.swap 0 (last + 1) k))
      rw [Equiv.swap_apply_of_ne_of_ne (by omega) (by omega)]
      exact h.sorted i k hk (hbehind hk) hn

/-- When the heap has one position left, everything is in order. -/
theorem Extracting.all {n : ℕ} (h : Extracting r f 0 n) {j k : ℕ} (hjk : j < k) (hn : k < n) :
    r (f j) (f k) :=
  h.sorted j k (by omega) hjk hn

end Squirt.HeapOrder
