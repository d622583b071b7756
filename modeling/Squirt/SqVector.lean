import Mathlib.Data.List.TakeDrop
import Mathlib.Tactic.Ring

/-!
# `sqvector`

A block of cells, of which the first ones hold objects that have been constructed. The size and the
capacity are unsigned, and the number of bytes that a capacity asks for wraps around; `none` is an
access outside the block, or to an object that has not been constructed.
-/

namespace Squirt.Arrays

/-- `bits` are those of `SQInteger` and of `SQUnsignedInteger`, and `objectSize` is `sizeof(T)`. -/
structure Build where
  bits : ℕ
  objectSize : ℕ
  objectSize_ge : 2 ≤ objectSize
  four_lt : 4 * objectSize < 2 ^ bits

variable (B : Build)

/-- The objects that fit in the bytes of a block for `newsize` -/
def Build.room (newsize : ℕ) : ℕ := newsize * B.objectSize % 2 ^ B.bits / B.objectSize

/-- The least number of objects whose bytes `SQUnsignedInteger` cannot count -/
def Build.limit : ℕ := (2 ^ B.bits + B.objectSize - 1) / B.objectSize

structure SqVector (α : Type) where
  cells : List (Option α)
  size : ℕ
  allocated : ℕ

namespace SqVector

variable {α : Type}

def empty : SqVector α := ⟨[], 0, 0⟩

variable (v : SqVector α)

/-- `_vals[i]` -/
def get (i : ℕ) : Option α := v.cells[i]?.join

/-- `new (&_vals[i]) T(a)` -/
def construct (i : ℕ) (a : α) : Option (SqVector α) :=
  if i < v.cells.length then some { v with cells := v.cells.set i (some a) } else none

/-- `_vals[i] = a` -/
def assign (i : ℕ) (a : α) : Option (SqVector α) :=
  (v.get i).map fun _ => { v with cells := v.cells.set i (some a) }

/-- `_vals[i].~T()` -/
def destroy (i : ℕ) : Option (SqVector α) :=
  (v.get i).map fun _ => { v with cells := v.cells.set i none }

def memmove (dst src count : ℕ) : Option (SqVector α) :=
  if dst + count ≤ v.cells.length ∧ src + count ≤ v.cells.length then
    some { v with cells :=
      v.cells.take dst ++ (v.cells.drop src).take count ++ v.cells.drop (dst + count) }
  else none

def realloc (newsize : ℕ) : SqVector α :=
  let newsize := if newsize > 0 then newsize else 4
  { v with
    cells := (v.cells ++ List.replicate (B.room newsize) none).take (B.room newsize)
    allocated := newsize }

/-- The first loop of `resize` -/
def fillUp (fill : α) : ℕ → SqVector α → Option (SqVector α)
  | 0, v => some v
  | count + 1, v => do
    let v ← v.construct v.size fill
    fillUp fill count { v with size := v.size + 1 }

/-- The second one -/
def destroyFrom : ℕ → ℕ → SqVector α → Option (SqVector α)
  | 0, _, v => some v
  | count + 1, i, v => do
    let v ← v.destroy i
    destroyFrom count (i + 1) v

def resize (newsize : ℕ) (fill : α) : Option (SqVector α) :=
  let v := if newsize > v.allocated then v.realloc B newsize else v
  if newsize > v.size then fillUp fill (newsize - v.size) v
  else do
    let v ← destroyFrom (v.size - newsize) newsize v
    some { v with size := newsize }

def shrinktofit : SqVector α := if v.size > 4 then v.realloc B v.size else v

def pushBack (a : α) : Option (SqVector α) := do
  let v := if v.allocated ≤ v.size then v.realloc B (v.size * 2 % 2 ^ B.bits) else v
  let v ← v.construct v.size a
  some { v with size := v.size + 1 }

def popBack : Option (SqVector α) := do
  let v := { v with size := v.size - 1 }
  v.destroy v.size

/-- The loop of `insert`, from `i = idx + count` down to `idx + 1` -/
def shiftUp (idx : ℕ) : ℕ → SqVector α → Option (SqVector α)
  | 0, v => some v
  | count + 1, v => do
    let a ← v.get (idx + count)
    let v ← v.assign (idx + count + 1) a
    shiftUp idx count v

/-- `null` is `T()`. -/
def insert (null : α) (idx : ℕ) (a : α) : Option (SqVector α) := do
  let v ← v.resize B ((v.size + 1) % 2 ^ B.bits) null
  let v ← shiftUp idx (v.size - 1 - idx) v
  v.assign idx a

def remove (idx : ℕ) : Option (SqVector α) := do
  let v ← v.destroy idx
  let v ← (if idx < v.size - 1 then v.memmove idx (idx + 1) (v.size - idx - 1) else some v)
  some { v with size := v.size - 1 }

end SqVector

namespace Build

variable {B}

theorem objectSize_pos : 0 < B.objectSize := Nat.zero_lt_two.trans_le B.objectSize_ge

theorem lt_limit {n : ℕ} : n < B.limit ↔ n * B.objectSize < 2 ^ B.bits := by
  have hpos := B.objectSize_pos
  have hbytes := Nat.two_pow_pos B.bits
  rw [limit, Nat.lt_iff_add_one_le, Nat.le_div_iff_mul_le hpos, Nat.add_mul]
  omega

private theorem room_of_lt {newsize : ℕ} (h : newsize < B.limit) : B.room newsize = newsize := by
  rw [room, Nat.mod_eq_of_lt (lt_limit.mp h), Nat.mul_div_cancel _ B.objectSize_pos]

private theorem room_lt (newsize : ℕ) : B.room newsize < B.limit := by
  rw [lt_limit, room]
  calc newsize * B.objectSize % 2 ^ B.bits / B.objectSize * B.objectSize
      ≤ newsize * B.objectSize % 2 ^ B.bits := Nat.div_mul_le_self _ _
    _ < 2 ^ B.bits := Nat.mod_lt _ (Nat.two_pow_pos _)

/-- The bytes of twice as many objects wrap around once, and there is no room for one more. -/
theorem room_double {size : ℕ} (hlt : size < B.limit) (hge : B.limit ≤ 2 * size) :
    B.room (2 * size) ≤ size := by
  have hfits := lt_limit.mp hlt
  have hwraps : 2 ^ B.bits ≤ 2 * size * B.objectSize := not_lt.mp (mt lt_limit.mpr (not_lt.mpr hge))
  have hdouble : 2 * size * B.objectSize = size * B.objectSize + size * B.objectSize := by ring
  have hbytes : 2 * size * B.objectSize % 2 ^ B.bits = 2 * size * B.objectSize - 2 ^ B.bits := by
    rw [Nat.mod_eq_sub_mod hwraps, Nat.mod_eq_of_lt (by omega)]
  rw [room, hbytes]
  apply Nat.div_le_of_le_mul
  rw [Nat.mul_comm B.objectSize]
  omega

theorem four_lt_limit : 4 < B.limit := lt_limit.mpr B.four_lt

/-- An index and its double are unsigned integers. -/
theorem double_lt {n : ℕ} (h : n < B.limit) : 2 * n < 2 ^ B.bits := by
  calc 2 * n ≤ B.objectSize * n := Nat.mul_le_mul_right n B.objectSize_ge
    _ = n * B.objectSize := Nat.mul_comm _ _
    _ < 2 ^ B.bits := lt_limit.mp h

/-- A number from half of the unsigned integers on has too many bytes. -/
theorem limit_le {n : ℕ} (h : 2 ^ B.bits ≤ 2 * n) : B.limit ≤ n := by
  apply le_of_not_gt
  intro hlt
  exact absurd (double_lt hlt) (not_lt.mpr h)

end Build

namespace SqVector

variable {α : Type} {B}

/-- The vector holds a list. -/
structure Holds (B : Build) (v : SqVector α) (xs : List α) : Prop where
  size : v.size = xs.length
  fits : v.size ≤ v.allocated
  block : v.cells.length = v.allocated
  bound : v.allocated < B.limit
  elements : v.cells.take xs.length = xs.map some

theorem holds_empty : (empty : SqVector α).Holds B [] where
  size := rfl
  fits := le_rfl
  block := rfl
  bound := (by decide : 0 < 4).trans B.four_lt_limit
  elements := rfl

variable {v : SqVector α} {xs : List α} (h : v.Holds B xs)

include h

theorem Holds.get {i : ℕ} (hi : i < xs.length) : v.get i = xs[i]? := by
  have hcell : v.cells[i]? = xs[i]?.map some := by
    rw [← List.getElem?_take_of_lt hi, h.elements, List.getElem?_map]
  rw [SqVector.get, hcell, List.getElem?_eq_getElem hi]
  rfl

/-- `_realloc` to a capacity for what there is -/
theorem Holds.realloc {newsize : ℕ} (hle : xs.length ≤ newsize) (hlt : newsize < B.limit)
    (hpos : 0 < newsize) : (v.realloc B newsize).Holds B xs := by
  have hfits := h.fits
  have hblock := h.block
  have hsize := h.size
  have hroom := Build.room_of_lt hlt
  refine ⟨h.size, ?_, ?_, ?_, ?_⟩
  · simp only [SqVector.realloc, if_pos hpos]
    omega
  · simp only [SqVector.realloc, if_pos hpos, hroom, List.length_take, List.length_append,
      List.length_replicate]
    omega
  · simpa only [SqVector.realloc, if_pos hpos] using hlt
  · simp only [SqVector.realloc, if_pos hpos, hroom]
    rw [List.take_take, Nat.min_eq_left hle, List.take_append_of_le_length (by omega), h.elements]

theorem Holds.shrinktofit : (v.shrinktofit B).Holds B xs := by
  have hsize := h.size
  have hbound := h.bound
  have hfits := h.fits
  rw [SqVector.shrinktofit]
  split_ifs with hlarge
  · exact h.realloc hsize.ge (by omega) (by omega)
  · exact h

/-- The next object is constructed. -/
theorem Holds.construct (a : α) (hroom : v.size < v.allocated) :
    ∃ v', v.construct v.size a = some v' ∧
      { v' with size := v'.size + 1 }.Holds B (xs ++ [a]) ∧ v'.allocated = v.allocated ∧
        v'.size = v.size := by
  have hsize := h.size
  have hblock := h.block
  refine ⟨{ v with cells := v.cells.set v.size (some a) }, if_pos (by omega), ?_, rfl, rfl⟩
  refine ⟨by simp [hsize], hroom, by simp [hblock], h.bound, ?_⟩
  have hlt : xs.length < v.cells.length := by omega
  rw [List.length_append, List.length_singleton, hsize, List.take_add_one, List.take_set_of_le le_rfl,
    h.elements, List.getElem?_set_self hlt, List.map_append]
  rfl

private theorem Holds.fillUp (fill : α) {count : ℕ} (hroom : v.size + count ≤ v.allocated) :
    ∃ v', SqVector.fillUp fill count v = some v' ∧ v'.Holds B (xs ++ List.replicate count fill) := by
  induction count generalizing v xs with
  | zero => exact ⟨v, rfl, by simpa using h⟩
  | succ count ih =>
    obtain ⟨v', hv', hheld, hallocated, hsize⟩ := h.construct fill (by omega)
    obtain ⟨v'', hv'', hheld'⟩ := ih hheld (by dsimp only; omega)
    refine ⟨v'', ?_, ?_⟩
    · rw [SqVector.fillUp, hv']
      exact hv''
    · rwa [List.append_assoc] at hheld'

omit h in
/-- More objects than there are cells -/
theorem fillUp_none {fill : α} {count : ℕ} (hfull : v.cells.length < v.size + count)
    (hle : v.size ≤ v.cells.length ∨ 0 < count) : SqVector.fillUp fill count v = none := by
  induction count generalizing v with
  | zero => omega
  | succ count ih =>
    rw [SqVector.fillUp]
    by_cases hlt : v.size < v.cells.length
    · have hset : v.construct v.size fill =
          some { v with cells := v.cells.set v.size (some fill) } := if_pos hlt
      rw [hset]
      refine ih ?_ (.inl ?_)
      · simp only [List.length_set]
        omega
      · simp only [List.length_set]
        omega
    · rw [SqVector.construct, if_neg hlt]
      rfl

omit h in
/-- The destruction of the objects from `k` on leaves those before `i`. -/
theorem destroyFrom_keeps {count k i : ℕ} (hk : i ≤ k) (hend : k + count = xs.length)
    (hget : ∀ j, k ≤ j → j < xs.length → v.get j = xs[j]?) :
    ∃ v', SqVector.destroyFrom count k v = some v' ∧ v'.allocated = v.allocated ∧
      v'.cells.length = v.cells.length ∧ v'.cells.take i = v.cells.take i := by
  induction count generalizing k v with
  | zero => exact ⟨v, rfl, rfl, rfl, rfl⟩
  | succ count ih =>
    have hobject := hget k le_rfl (by omega)
    rw [List.getElem?_eq_getElem (by omega)] at hobject
    have hdestroy : v.destroy k = some { v with cells := v.cells.set k none } := by
      rw [destroy, hobject]
      rfl
    have hnext : ∀ j, k + 1 ≤ j → j < xs.length →
        { v with cells := v.cells.set k none }.get j = xs[j]? := by
      intro j hj hlt
      rw [← hget j (by omega) hlt, SqVector.get, List.getElem?_set_ne (by omega)]
      rfl
    obtain ⟨v', hv', hallocated, hlen, htake⟩ := ih (by omega) (by omega) hnext
    refine ⟨v', ?_, hallocated, by simpa using hlen, by rw [htake, List.take_set_of_le hk]⟩
    rw [SqVector.destroyFrom, hdestroy]
    exact hv'

/-- The objects behind the new size are destroyed, from the first on. -/
theorem Holds.destroyFrom {count i : ℕ} (hall : i + count = xs.length) :
    ∃ v', SqVector.destroyFrom count i v = some v' ∧ { v' with size := i }.Holds B (xs.take i) := by
  have hsize := h.size
  have hfits := h.fits
  have hlen : (xs.take i).length = i := List.length_take_of_le (by omega)
  obtain ⟨v', hv', hallocated, hcells, htake⟩ :=
    destroyFrom_keeps le_rfl hall fun j _ hj => h.get hj
  refine ⟨v', hv', hlen.symm, ?_, by rw [hcells, hallocated, h.block], by rw [hallocated]; exact h.bound,
    ?_⟩
  · change i ≤ v'.allocated
    omega
  · rw [hlen, htake, List.map_take, ← h.elements, List.take_take, Nat.min_eq_left (by omega)]

theorem Holds.resize {newsize : ℕ} (fill : α) (hlt : newsize < B.limit) :
    ∃ v', v.resize B newsize fill = some v' ∧
      v'.Holds B (xs.take newsize ++ List.replicate (newsize - xs.length) fill) := by
  have hsize := h.size
  have hfits := h.fits
  obtain ⟨u, hu, hheld, hgrown, husize⟩ : ∃ u,
      (if newsize > v.allocated then v.realloc B newsize else v) = u ∧
        u.Holds B xs ∧ newsize ≤ u.allocated ∧ u.size = v.size := by
    refine ⟨_, rfl, ?_⟩
    split_ifs with hmore
    · refine ⟨h.realloc (by omega) hlt (by omega), ?_, rfl⟩
      simp only [SqVector.realloc]
      split_ifs <;> omega
    · exact ⟨h, not_lt.mp hmore, rfl⟩
  rw [SqVector.resize, hu]
  by_cases hlonger : newsize > u.size
  · have husize' := hheld.size
    rw [if_pos hlonger]
    obtain ⟨v', hv', hheld'⟩ :=
      hheld.fillUp fill (show u.size + (newsize - u.size) ≤ u.allocated by omega)
    refine ⟨v', hv', ?_⟩
    rwa [List.take_of_length_le (by omega), ← husize']
  · have husize' := hheld.size
    rw [if_neg hlonger]
    obtain ⟨v', hv', hheld'⟩ :=
      hheld.destroyFrom (show newsize + (u.size - newsize) = xs.length by omega)
    refine ⟨{ v' with size := newsize }, by rw [hv']; rfl, ?_⟩
    rwa [Nat.sub_eq_zero_of_le (by omega), List.replicate_zero, List.append_nil]

/-- The bytes for too many objects wrap around. -/
theorem Holds.resize_none {newsize : ℕ} {fill : α} (hge : B.limit ≤ newsize) :
    v.resize B newsize fill = none := by
  have hbound := h.bound
  have hfits := h.fits
  have hpos : 0 < newsize := by omega
  have hroom := B.room_lt newsize
  have hcells : (v.realloc B newsize).cells.length = B.room newsize := by
    simp only [SqVector.realloc, if_pos hpos, List.length_take, List.length_append,
      List.length_replicate]
    omega
  have hsize : (v.realloc B newsize).size = v.size := rfl
  have hmore : newsize > v.allocated := by omega
  rw [SqVector.resize, if_pos hmore, if_pos (show newsize > (v.realloc B newsize).size by omega)]
  exact fillUp_none (by omega) (.inr (by omega))

/-- There is a free cell, or twice as many fit. -/
def Grows (B : Build) (allocated size : ℕ) : Prop :=
  size < allocated ∨ 2 * size < B.limit

instance (allocated size : ℕ) : Decidable (Grows B allocated size) :=
  inferInstanceAs (Decidable (_ ∨ _))

/-- The capacity after `push_back` -/
def grown (allocated size : ℕ) : ℕ :=
  if allocated ≤ size then if 2 * size > 0 then 2 * size else 4 else allocated

theorem Holds.double : v.size * 2 % 2 ^ B.bits = 2 * v.size := by
  rw [Nat.mul_comm]
  exact Nat.mod_eq_of_lt (Build.double_lt (h.fits.trans_lt h.bound))

theorem Holds.pushBack {a : α} (hgrows : Grows B v.allocated v.size) :
    ∃ v', v.pushBack B a = some v' ∧ v'.Holds B (xs ++ [a]) ∧
      v'.allocated = grown v.allocated v.size := by
  have hsize := h.size
  have hfits := h.fits
  have hfour := B.four_lt_limit
  obtain ⟨u, hu, hheld, hroom, hallocated⟩ : ∃ u,
      (if v.allocated ≤ v.size then v.realloc B (v.size * 2 % 2 ^ B.bits) else v) = u ∧
        u.Holds B xs ∧ u.size < u.allocated ∧ u.allocated = grown v.allocated v.size := by
    refine ⟨_, rfl, ?_⟩
    rw [h.double, grown]
    split_ifs with hfull hsome
    · have hlt : 2 * v.size < B.limit := hgrows.resolve_left (by omega)
      refine ⟨h.realloc (by omega) hlt hsome, ?_, if_pos hsome⟩
      simp only [SqVector.realloc, if_pos hsome]
      omega
    · -- the first capacity is 4
      have hzero : 2 * v.size = 0 := by omega
      have hnil : v.realloc B (2 * v.size) = v.realloc B 4 := by
        rw [hzero]
        rfl
      rw [hnil]
      refine ⟨h.realloc (by omega) hfour (by omega), ?_, rfl⟩
      change v.size < 4
      omega
    · exact ⟨h, not_le.mp hfull, rfl⟩
  obtain ⟨v', hv', hheld', hsame, -⟩ := hheld.construct a hroom
  refine ⟨{ v' with size := v'.size + 1 }, ?_, hheld', hsame.trans hallocated⟩
  rw [SqVector.pushBack, hu, hv']
  rfl

/-- The bytes for twice the capacity wrap around, and the block is cut. -/
theorem Holds.pushBack_none {a : α} (hgrows : ¬Grows B v.allocated v.size) :
    v.pushBack B a = none := by
  have hbound := h.bound
  have hfits := h.fits
  have hfull : v.allocated ≤ v.size ∧ B.limit ≤ 2 * v.size := by
    rw [Grows] at hgrows
    omega
  have hfour := B.four_lt_limit
  have hpos : 2 * v.size > 0 := by omega
  have hroom := Build.room_double (hfits.trans_lt hbound) hfull.2
  have hcells : (v.realloc B (2 * v.size)).cells.length ≤ B.room (2 * v.size) := by
    simp only [SqVector.realloc, if_pos hpos]
    exact List.length_take_le _ _
  have hnone : (v.realloc B (2 * v.size)).construct (v.realloc B (2 * v.size)).size a = none :=
    if_neg (by
      change ¬v.size < _
      omega)
  rw [SqVector.pushBack, h.double, if_pos hfull.1, hnone]
  rfl

theorem Holds.popBack (hpos : xs ≠ []) :
    ∃ v', v.popBack = some v' ∧ v'.Holds B xs.dropLast := by
  have hsize := h.size
  have hlen := List.length_pos_iff.mpr hpos
  obtain ⟨v', hv', hheld⟩ := h.destroyFrom (show xs.length - 1 + 1 = xs.length by omega)
  rw [SqVector.destroyFrom] at hv'
  obtain ⟨u, hu, hrest⟩ := Option.bind_eq_some_iff.mp hv'
  cases hrest
  rw [List.dropLast_eq_take]
  refine ⟨_, ?_, hheld⟩
  obtain ⟨a, ha, rfl⟩ := Option.map_eq_some_iff.mp hu
  have hlast : v.size - 1 = xs.length - 1 := by rw [hsize]
  rw [SqVector.popBack, destroy, hlast]
  have hsame : { v with size := xs.length - 1 }.get (xs.length - 1) = some a := ha
  rw [hsame]
  rfl

theorem Holds.assign {i : ℕ} {a : α} (hi : i < xs.length) :
    ∃ v', v.assign i a = some v' ∧ v'.Holds B (xs.set i a) := by
  have hget := h.get hi
  rw [List.getElem?_eq_getElem hi] at hget
  refine ⟨{ v with cells := v.cells.set i (some a) }, by rw [SqVector.assign, hget]; rfl, ?_⟩
  refine ⟨by simpa using h.size, h.fits, by simpa using h.block, h.bound, ?_⟩
  rw [List.length_set, List.take_set, h.elements, List.map_set]

/-- Each object behind `idx` is the one before it. -/
theorem Holds.shiftUp {idx count : ℕ} (hlt : idx + count < xs.length) :
    ∃ v' ys, SqVector.shiftUp idx count v = some v' ∧ v'.Holds B ys ∧ ys.length = xs.length ∧
      ∀ j, ys[j]? = if idx < j ∧ j ≤ idx + count then xs[j - 1]? else xs[j]? := by
  induction count generalizing v xs with
  | zero =>
    refine ⟨v, xs, rfl, h, rfl, fun j => ?_⟩
    rw [if_neg (by omega)]
  | succ count ih =>
    have hget := h.get (show idx + count < xs.length by omega)
    rw [List.getElem?_eq_getElem (by omega)] at hget
    obtain ⟨u, hu, hheld⟩ := h.assign (a := xs[idx + count]) (show idx + count + 1 < xs.length by omega)
    obtain ⟨v', ys, hv', hheld', hlen, hys⟩ := ih hheld (by rw [List.length_set]; omega)
    refine ⟨v', ys, ?_, hheld', by rw [hlen, List.length_set], fun j => ?_⟩
    · rw [SqVector.shiftUp, hget, Option.bind_eq_bind, Option.bind_some, hu]
      exact hv'
    · rw [hys j]
      by_cases hj : j = idx + count + 1
      · subst hj
        rw [if_neg (by omega), if_pos (by omega), List.getElem?_set_self (by omega),
          Nat.add_sub_cancel, List.getElem?_eq_getElem (by omega)]
      · have hiff : idx < j ∧ j ≤ idx + count ↔ idx < j ∧ j ≤ idx + (count + 1) := by omega
        rw [if_congr hiff rfl rfl, List.getElem?_set_ne (Ne.symm hj)]
        split_ifs with hin
        · exact List.getElem?_set_ne (by omega)
        · rfl

/-- There is a free cell, or one more fits. -/
def GrowsByOne (B : Build) (allocated size : ℕ) : Prop :=
  size < allocated ∨ size + 1 < B.limit

instance (allocated size : ℕ) : Decidable (GrowsByOne B allocated size) :=
  inferInstanceAs (Decidable (_ ∨ _))

theorem Holds.succ : (v.size + 1) % 2 ^ B.bits = v.size + 1 := by
  have hdouble := Build.double_lt (h.fits.trans_lt h.bound)
  have hfour := Build.double_lt B.four_lt_limit
  exact Nat.mod_eq_of_lt (by omega)

theorem Holds.insert (null a : α) {idx : ℕ} (hidx : idx ≤ xs.length)
    (hgrows : GrowsByOne B v.allocated v.size) :
    ∃ v', v.insert B null idx a = some v' ∧ v'.Holds B (xs.insertIdx idx a) := by
  have hsize := h.size
  have hfits := h.fits
  have hbound := h.bound
  have hlt : xs.length + 1 < B.limit := by
    rw [GrowsByOne] at hgrows
    omega
  obtain ⟨u, hu, hheld⟩ := h.resize null hlt
  rw [List.take_of_length_le (by omega), Nat.add_sub_cancel_left] at hheld
  have hlen : (xs ++ List.replicate 1 null).length = xs.length + 1 := by simp
  have husize := hheld.size
  obtain ⟨w, ys, hw, hheld', hlen', hys⟩ := hheld.shiftUp (show idx + (u.size - 1 - idx) < _ by omega)
  obtain ⟨v', hv', hheld''⟩ := hheld'.assign (a := a) (show idx < ys.length by omega)
  refine ⟨v', ?_, ?_⟩
  · rw [SqVector.insert, h.succ, hsize, hu, Option.bind_eq_bind, Option.bind_some, hw]
    exact hv'
  · have hlist : ys.set idx a = xs.insertIdx idx a := by
      refine List.ext_getElem? fun j => ?_
      rw [List.getElem?_insertIdx]
      rcases Nat.lt_trichotomy j idx with hj | rfl | hj
      · rw [List.getElem?_set_ne (by omega), hys, if_neg (by omega), if_pos hj,
          List.getElem?_append_left (by omega)]
      · rw [List.getElem?_set_self (by omega), if_neg (by omega), if_pos rfl, if_pos hidx]
      · rw [List.getElem?_set_ne (by omega), hys, if_neg (show ¬j < idx by omega),
          if_neg (show ¬j = idx by omega)]
        by_cases hend : j ≤ xs.length
        · rw [if_pos ⟨hj, by omega⟩, List.getElem?_append_left (by omega)]
        · rw [if_neg (by omega), List.getElem?_eq_none (by omega),
            List.getElem?_eq_none (by omega)]
    rwa [hlist] at hheld''

theorem Holds.insert_none {null a : α} {idx : ℕ} (hgrows : ¬GrowsByOne B v.allocated v.size) :
    v.insert B null idx a = none := by
  have hbound := h.bound
  have hfits := h.fits
  have hge : B.limit ≤ v.size + 1 := by
    rw [GrowsByOne] at hgrows
    omega
  rw [SqVector.insert, h.succ, h.resize_none hge]
  rfl

theorem Holds.remove {idx : ℕ} (hidx : idx < xs.length) :
    ∃ v', v.remove idx = some v' ∧ v'.Holds B (xs.eraseIdx idx) := by
  have hsize := h.size
  have hfits := h.fits
  have hblock := h.block
  have hget := h.get hidx
  rw [List.getElem?_eq_getElem hidx] at hget
  have hdestroy : v.destroy idx = some { v with cells := v.cells.set idx none } := by
    rw [destroy, hget]
    rfl
  have hlen : (xs.eraseIdx idx).length = xs.length - 1 := List.length_eraseIdx_of_lt hidx
  have herase : xs.eraseIdx idx = xs.take idx ++ xs.drop (idx + 1) :=
    List.eraseIdx_eq_take_drop_succ ..
  have htail : (v.cells.drop (idx + 1)).take (v.size - idx - 1) =
      (v.cells.take xs.length).drop (idx + 1) := by
    rw [List.drop_take, hsize]
    congr 1
  -- the objects behind the one that is destroyed are moved to its place, if there are any
  obtain ⟨u, hu, husize, hallocated, hcells, htake⟩ : ∃ u, (if idx < v.size - 1 then
      { v with cells := v.cells.set idx none }.memmove idx (idx + 1) (v.size - idx - 1)
      else some { v with cells := v.cells.set idx none }) = some u ∧ u.size = v.size ∧
        u.allocated = v.allocated ∧ u.cells.length = v.cells.length ∧ u.cells.take (xs.length - 1) =
          v.cells.take idx ++ (v.cells.take xs.length).drop (idx + 1) := by
    by_cases hlast : idx < v.size - 1
    · have hmove : { v with cells := v.cells.set idx none }.memmove idx (idx + 1) (v.size - idx - 1) =
          some { v with cells := v.cells.take idx ++ (v.cells.take xs.length).drop (idx + 1) ++
            v.cells.drop (idx + (v.size - idx - 1)) } := by
        rw [SqVector.memmove, if_pos ⟨by simp only [List.length_set]; omega,
          by simp only [List.length_set]; omega⟩, List.take_set_of_le le_rfl,
          List.drop_set_of_lt (by omega), List.drop_set_of_lt (by omega), htail]
      have hboth : (v.cells.take idx ++ (v.cells.take xs.length).drop (idx + 1)).length =
          xs.length - 1 := by
        simp only [List.length_append, List.length_take, List.length_drop]
        omega
      refine ⟨_, (if_pos hlast).trans hmove, rfl, rfl, ?_, List.take_left' hboth⟩
      rw [List.length_append, hboth, List.length_drop]
      omega
    · refine ⟨_, if_neg hlast, rfl, rfl, by simp only [List.length_set], ?_⟩
      have hall : xs.length - 1 = idx := by omega
      rw [hall, List.take_set_of_le le_rfl, List.drop_eq_nil_of_le (by
        rw [List.length_take]
        omega), List.append_nil]
  refine ⟨{ u with size := u.size - 1 }, ?_, ?_, ?_, ?_, ?_, ?_⟩
  · rw [SqVector.remove, hdestroy, Option.bind_eq_bind, Option.bind_some]
    exact congrArg (fun o => o.bind fun v => some { v with size := v.size - 1 }) hu
  · rw [hlen, husize, hsize]
  · change u.size - 1 ≤ u.allocated
    omega
  · exact hcells.trans (hblock.trans hallocated.symm)
  · exact hallocated ▸ h.bound
  · rw [hlen]
    refine htake.trans ?_
    rw [h.elements, herase, List.map_append, List.map_take, List.map_drop, ← h.elements,
      List.take_take, Nat.min_eq_left (by omega)]

end SqVector

end Squirt.Arrays
