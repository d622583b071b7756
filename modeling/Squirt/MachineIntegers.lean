import Mathlib.Data.BitVec
import Mathlib.Tactic.Positivity
import Mathlib.Tactic.Ring

/-!
# Machine integers

The operations on signed integers of `w` bits that are not defined everywhere: a quotient, a
remainder or a negation needs a result that fits, a shift needs an amount from 0 to `w - 1`.
-/

namespace MachineIntegers

variable {w : ℕ}

/-- What `w` bits keep of an integer -/
def wrap (w : ℕ) (z : ℤ) : ℤ := z.bmod (2 ^ w)

/-- The integer is one of `w` bits. -/
def Fits (w : ℕ) (z : ℤ) : Prop := wrap w z = z

instance (w : ℕ) : DecidablePred (Fits w) := fun z => inferInstanceAs (Decidable (wrap w z = z))

theorem fits_iff (hw : 0 < w) {z : ℤ} : Fits w z ↔ -2 ^ (w - 1) ≤ z ∧ z < 2 ^ (w - 1) := by
  obtain ⟨w, rfl⟩ : ∃ n, w = n + 1 := ⟨w - 1, by omega⟩
  have htwice : ((2 ^ (w + 1) : ℕ) : ℤ) = 2 * 2 ^ w := by push_cast; ring
  have hpos : (0 : ℤ) < 2 ^ w := by positivity
  have hlow := Int.le_bmod (x := z) (m := 2 ^ (w + 1)) (by positivity)
  have hhigh := Int.bmod_lt (x := z) (m := 2 ^ (w + 1)) (by positivity)
  rw [htwice] at hlow hhigh
  simp only [Fits, wrap, Nat.add_sub_cancel]
  constructor
  · intro h
    rw [h] at hlow hhigh
    omega
  · rintro ⟨hlow, hhigh⟩
    apply Int.bmod_eq_of_le_mul_two
    · rw [htwice]
      omega
    · rw [htwice]
      omega

/-- A sum or a difference that is too large comes out `2 ^ w` less. -/
theorem wrap_eq_sub {n : ℕ} {z : ℤ} (hlow : 2 ^ n ≤ z) (hhigh : z < 3 * 2 ^ n) :
    wrap (n + 1) z = z - 2 * 2 ^ n := by
  have htwice : ((2 ^ (n + 1) : ℕ) : ℤ) = 2 * 2 ^ n := by push_cast; ring
  have hshift : (z - ((2 ^ (n + 1) : ℕ) : ℤ)).bmod (2 ^ (n + 1)) = z - ((2 ^ (n + 1) : ℕ) : ℤ) := by
    apply Int.bmod_eq_of_le_mul_two
    · rw [htwice]
      omega
    · rw [htwice]
      omega
  rw [wrap, ← htwice, ← hshift, Int.sub_bmod_right]

theorem fits_wrap (z : ℤ) : Fits w (wrap w z) := Int.bmod_bmod

theorem fits_toInt (a : BitVec w) : Fits w a.toInt := by
  rw [Fits, wrap, ← BitVec.toInt_ofInt, BitVec.ofInt_toInt]

def exact (w : ℕ) (z : ℤ) : Option (BitVec w) := if Fits w z then some (BitVec.ofInt w z) else none

def quotient (a b : BitVec w) : Option (BitVec w) :=
  if b = 0 then none else exact w (a.toInt.tdiv b.toInt)

/-- It is defined where the quotient is. -/
def remainder (a b : BitVec w) : Option (BitVec w) :=
  (quotient a b).map fun _ => BitVec.ofInt w (a.toInt.tmod b.toInt)

def negation (a : BitVec w) : Option (BitVec w) := exact w (-a.toInt)

/-- A shift by an amount in range -/
def shift (f : ℕ → BitVec w) (amount : BitVec w) : Option (BitVec w) :=
  if 0 ≤ amount.toInt ∧ amount.toInt < w then some (f amount.toInt.toNat) else none

theorem exact_isSome {z : ℤ} : (exact w z).isSome ↔ Fits w z := by
  unfold exact
  split_ifs with h
  · exact iff_of_true rfl h
  · exact iff_of_false (by simp) h

theorem eq_intMin_iff (hw : 0 < w) {a : BitVec w} :
    a = BitVec.intMin w ↔ a.toInt = -2 ^ (w - 1) := by
  rw [← BitVec.toInt_inj, BitVec.toInt_intMin_of_pos hw]

/-- The negation fits but for the least integer. -/
theorem fits_neg_iff (hw : 0 < w) (a : BitVec w) : Fits w (-a.toInt) ↔ a ≠ BitVec.intMin w := by
  obtain ⟨hlow, hhigh⟩ := (fits_iff hw).mp (fits_toInt a)
  rw [fits_iff hw, Ne, eq_intMin_iff hw]
  omega

theorem toInt_eq_zero_iff {a : BitVec w} : a.toInt = 0 ↔ a = 0 :=
  ⟨fun h => BitVec.toInt_inj.mp (h.trans BitVec.toInt_zero.symm), fun h => h ▸ BitVec.toInt_zero⟩

theorem fits_tmod (a b : BitVec w) : Fits w (a.toInt.tmod b.toInt) := by
  rw [← BitVec.toInt_srem]
  exact fits_toInt _

theorem toInt_neg_one (hw : 0 < w) : (-1 : BitVec w).toInt = -1 := by
  have hones : (-1 : BitVec w) = BitVec.allOnes w := BitVec.neg_one_eq_allOnes
  rw [hones, BitVec.toInt_allOnes, if_pos hw]

theorem neg_one_ne_zero (hw : 0 < w) : (-1 : BitVec w) ≠ 0 := by
  intro h
  have hone := toInt_neg_one hw
  rw [h] at hone
  exact absurd (BitVec.toInt_zero.symm.trans hone) (by decide)

/-- The quotient fits but for the least integer by -1. -/
theorem fits_tdiv_iff (hw : 0 < w) (a : BitVec w) {b : BitVec w} (hb : b ≠ 0) :
    Fits w (a.toInt.tdiv b.toInt) ↔ ¬(a = BitVec.intMin w ∧ b = -1) := by
  have hzero : b.toInt ≠ 0 := mt toInt_eq_zero_iff.mp hb
  have hminus : b = -1 ↔ b.toInt = -1 := by rw [← BitVec.toInt_inj, toInt_neg_one hw]
  by_cases hneg : b.toInt = -1
  · rw [hneg, Int.tdiv_neg, Int.tdiv_one, fits_neg_iff hw, hminus, hneg]
    simp
  · refine iff_of_true ?_ fun h => hneg (hminus.mp h.2)
    by_cases hpos : b.toInt = 1
    · rw [hpos, Int.tdiv_one]
      exact fits_toInt a
    · -- the quotient is at most half of the dividend
      have hhalf : (a.toInt.tdiv b.toInt).natAbs ≤ a.toInt.natAbs / 2 := by
        rw [Int.natAbs_tdiv]
        exact Nat.div_le_div_left (by omega) (by omega)
      have hbound : (0 : ℤ) < 2 ^ (w - 1) := by positivity
      obtain ⟨hlow, hhigh⟩ := (fits_iff hw).mp (fits_toInt a)
      rw [fits_iff hw]
      omega

theorem quotient_isSome (hw : 0 < w) (a b : BitVec w) :
    (quotient a b).isSome ↔ b ≠ 0 ∧ ¬(a = BitVec.intMin w ∧ b = -1) := by
  unfold quotient
  split_ifs with hb
  · exact iff_of_false (by simp) fun h => h.1 hb
  · rw [exact_isSome, fits_tdiv_iff hw a hb]
    exact (and_iff_right hb).symm

theorem remainder_isSome (hw : 0 < w) (a b : BitVec w) :
    (remainder a b).isSome ↔ b ≠ 0 ∧ ¬(a = BitVec.intMin w ∧ b = -1) := by
  rw [remainder, Option.isSome_map, quotient_isSome hw]

theorem negation_isSome (hw : 0 < w) (a : BitVec w) :
    (negation a).isSome ↔ a ≠ BitVec.intMin w := by
  rw [negation, exact_isSome, fits_neg_iff hw]

theorem shift_isSome {f : ℕ → BitVec w} {amount : BitVec w} :
    (shift f amount).isSome ↔ 0 ≤ amount.toInt ∧ amount.toInt < w := by
  unfold shift
  split_ifs with h
  · exact iff_of_true rfl h
  · exact iff_of_false (by simp) h

end MachineIntegers
