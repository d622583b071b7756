import Mathlib.Data.BitVec
import Mathlib.Logic.Function.Basic
import Squirt.SqVector

/-!
# Arrays

`SQArray` and the functions of scripts on it, for arrays that have names. What a script counts with
is a `SQInteger`, and what a vector counts with is unsigned.
-/

namespace Squirt.Arrays

/-- The objects that arrays hold -/
structure Objects (α : Type) where
  null : α
  /-- `_realval` -/
  realval : α → α

section Model

variable (B : Build) {α ι : Type} (O : Objects α)

abbrev SQInteger := BitVec B.bits

namespace SqVector

variable (v : SqVector α)

/-- `(SQInteger)_values.size()` -/
def sizeInteger : ℤ := (BitVec.ofNat B.bits v.size).toInt

def shrinkIfNeeded : SqVector α := if v.size ≤ v.allocated / 4 then v.shrinktofit B else v

/-- `Resize` -/
def resizeArray (size : SQInteger B) (fill : α) : Option (SqVector α) := do
  let v ← v.resize B size.toNat fill
  some (v.shrinkIfNeeded B)

/-- `Get`; the second `Option` is whether there is such an index. -/
def getArray (idx : SQInteger B) : Option (Option α) :=
  if idx.toInt ≥ 0 ∧ idx.toInt < v.sizeInteger B then
    (v.get idx.toNat).map fun o => some (O.realval o)
  else some none

/-- `Pop` -/
def popArray : Option (SqVector α) := do
  let v ← v.popBack
  some (v.shrinkIfNeeded B)

/-- `Insert`; `none` is for `false`. -/
def insertArray (idx : SQInteger B) (val : α) : Option (Option (SqVector α)) :=
  if idx.toInt < 0 ∨ idx.toInt > v.sizeInteger B then some none
  else (v.insert B O.null idx.toNat val).map some

/-- `Remove` -/
def removeArray (idx : SQInteger B) : Option (Option (SqVector α)) :=
  if idx.toInt < 0 ∨ idx.toInt ≥ v.sizeInteger B then some none
  else do
    let v ← v.remove idx.toNat
    some (some (v.shrinkIfNeeded B))

end SqVector

variable [DecidableEq ι]

abbrev ArrayStore (α ι : Type) := ι → SqVector α

/-- What a script does with arrays; `array(size)` is for a name that then stands for the new one. -/
inductive ArrayOp (α ι : Type)
  | array (a : ι) (size : SQInteger B) (fill : Option α)
  | append (a : ι) (val : α)
  | extend (a b : ι)
  | pop (a : ι)
  | insert (a : ι) (idx : SQInteger B) (val : α)
  | remove (a : ι) (idx : SQInteger B)
  | resize (a : ι) (size : SQInteger B) (fill : Option α)

inductive ArrayResult (α : Type)
  | done
  | value (a : α)
  | error (message : String)
  deriving DecidableEq

/-- The loop of `Extend`, which reads the other array while it appends to this one -/
def extendFrom (a b : ι) : ℕ → ℕ → ArrayStore α ι → Option (ArrayStore α ι)
  | 0, _, s => some s
  | count + 1, i, s => do
    let val ← (s b).get i
    let v ← (s a).pushBack B val
    extendFrom a b count (i + 1) (Function.update s a v)

def ArrayStore.step (s : ArrayStore α ι) : ArrayOp B α ι → Option (ArrayStore α ι × ArrayResult α)
  | .array a size none => do
    let v ← SqVector.empty.resize B size.toNat O.null
    some (Function.update s a v, .done)
  | .array a size (some fill) => do
    let v ← SqVector.empty.resize B (0 : SQInteger B).toNat O.null
    let v ← v.resizeArray B size fill
    some (Function.update s a v, .done)
  | .append a val => do
    let v ← (s a).pushBack B val
    some (Function.update s a v, .done)
  | .extend a b => do
    let xlen := (s b).sizeInteger B
    let s ← extendFrom B a b xlen.toNat 0 s
    some (s, .done)
  | .pop a =>
    if (s a).sizeInteger B > 0 then do
      let top ← (s a).get ((s a).size - 1)
      let v ← (s a).popArray B
      some (Function.update s a v, .value top)
    else some (s, .error "empty array")
  | .insert a idx val => do
    match ← (s a).insertArray B O idx val with
    | some v => some (Function.update s a v, .done)
    | none => some (s, .error "index out of range")
  | .remove a idx => do
    match ← (s a).getArray B O idx with
    | some val => do
      match ← (s a).removeArray B idx with
      | some v => some (Function.update s a v, .value val)
      | none => some (s, .value val)
    | none => some (s, .error "idx out of range")
  | .resize a size fill => do
    let v ← (s a).resizeArray B size (fill.getD O.null)
    some (Function.update s a v, .done)

/-- What an operation does to lists; a size that is negative is an error. -/
def listStep (l : ι → List α) : ArrayOp B α ι → (ι → List α) × ArrayResult α
  | .array a size fill =>
    if 0 ≤ size.toInt then
      (Function.update l a (List.replicate size.toInt.toNat (fill.getD O.null)), .done)
    else (l, .error "negative size")
  | .append a val => (Function.update l a (l a ++ [val]), .done)
  | .extend a b => (Function.update l a (l a ++ l b), .done)
  | .pop a =>
    match (l a).getLast? with
    | some top => (Function.update l a (l a).dropLast, .value top)
    | none => (l, .error "empty array")
  | .insert a idx val =>
    if 0 ≤ idx.toInt ∧ idx.toInt ≤ (l a).length then
      (Function.update l a ((l a).insertIdx idx.toInt.toNat val), .done)
    else (l, .error "index out of range")
  | .remove a idx =>
    if 0 ≤ idx.toInt then
      match (l a)[idx.toInt.toNat]? with
      | some val => (Function.update l a ((l a).eraseIdx idx.toInt.toNat), .value (O.realval val))
      | none => (l, .error "idx out of range")
    else (l, .error "idx out of range")
  | .resize a size fill =>
    if 0 ≤ size.toInt then
      (Function.update l a ((l a).take size.toInt.toNat ++
        List.replicate (size.toInt.toNat - (l a).length) (fill.getD O.null)), .done)
    else (l, .error "negative size")

/-- The capacity is enough at each of `count` calls of `push_back`. -/
def Extends : ℕ → ℕ → ℕ → Prop
  | 0, _, _ => True
  | count + 1, allocated, size => SqVector.Grows B allocated size ∧
    Extends count (SqVector.grown allocated size) (size + 1)

/-- No size is negative, and the bytes of each block that is asked for can be counted. -/
def ArrayOp.Within (s : ArrayStore α ι) : ArrayOp B α ι → Prop
  | .array _ size _ | .resize _ size _ => 0 ≤ size.toInt ∧ size.toInt < B.limit
  | .append a _ => SqVector.Grows B (s a).allocated (s a).size
  | .extend a b => Extends B (s b).size (s a).allocated (s a).size
  | .insert a idx _ => 0 ≤ idx.toInt ∧ idx.toInt ≤ (s a).size →
    SqVector.GrowsByOne B (s a).allocated (s a).size
  | .pop _ | .remove .. => True

end Model

variable {B : Build} {α ι : Type} {O : Objects α}

/-- A `SQInteger` that is not negative counts the same without its sign, a negative one too much. -/
theorem unsigned_cases (i : SQInteger B) :
    0 ≤ i.toInt ∧ i.toNat = i.toInt.toNat ∨ i.toInt < 0 ∧ B.limit ≤ i.toNat := by
  have hlt := i.isLt
  rw [BitVec.toInt_eq_toNat_cond]
  split_ifs with hsmall
  · exact .inl ⟨by omega, by omega⟩
  · refine .inr ⟨by omega, Build.limit_le (by omega)⟩

theorem toNat_of_nonneg {i : SQInteger B} (h : 0 ≤ i.toInt) : i.toNat = i.toInt.toNat := by
  rcases unsigned_cases i with ⟨-, heq⟩ | ⟨hneg, -⟩
  · exact heq
  · omega

namespace SqVector

variable {v : SqVector α} {xs : List α}

section Holds

variable (h : v.Holds B xs)

include h

theorem Holds.sizeInteger : v.sizeInteger B = xs.length := by
  have hdouble := Build.double_lt (h.fits.trans_lt h.bound)
  have hsize := h.size
  have hnat : (BitVec.ofNat B.bits v.size).toNat = v.size := by
    rw [BitVec.toNat_ofNat, Nat.mod_eq_of_lt (by omega)]
  rw [SqVector.sizeInteger, BitVec.toInt_eq_toNat_of_lt (by omega), hnat, hsize]

theorem Holds.shrinkIfNeeded : (v.shrinkIfNeeded B).Holds B xs := by
  rw [SqVector.shrinkIfNeeded]
  split_ifs
  · exact h.shrinktofit
  · exact h

theorem Holds.resizeInteger {size : SQInteger B} (fill : α) (hsize : 0 ≤ size.toInt)
    (hlt : size.toInt < B.limit) : ∃ v', v.resize B size.toNat fill = some v' ∧
      v'.Holds B (xs.take size.toInt.toNat ++
        List.replicate (size.toInt.toNat - xs.length) fill) := by
  have hnat := toNat_of_nonneg hsize
  have hlt' : size.toNat < B.limit := by omega
  rw [← hnat]
  exact h.resize fill hlt'

private theorem Holds.resizeArray {size : SQInteger B} (fill : α) (hsize : 0 ≤ size.toInt)
    (hlt : size.toInt < B.limit) : ∃ v', v.resizeArray B size fill = some v' ∧
      v'.Holds B (xs.take size.toInt.toNat ++
        List.replicate (size.toInt.toNat - xs.length) fill) := by
  obtain ⟨v', hv', hheld⟩ := h.resizeInteger fill hsize hlt
  exact ⟨_, by rw [SqVector.resizeArray, hv']; rfl, hheld.shrinkIfNeeded⟩

private theorem Holds.resize_integer_none {size : SQInteger B} {fill : α}
    (hout : ¬(0 ≤ size.toInt ∧ size.toInt < B.limit)) :
    v.resize B size.toNat fill = none := by
  refine h.resize_none ?_
  rcases unsigned_cases size with ⟨hpos, heq⟩ | ⟨-, hlarge⟩
  · omega
  · exact hlarge

private theorem Holds.popArray (hne : xs ≠ []) :
    ∃ v', v.popArray B = some v' ∧ v'.Holds B xs.dropLast := by
  obtain ⟨v', hv', hheld⟩ := h.popBack hne
  exact ⟨_, by rw [SqVector.popArray, hv']; rfl, hheld.shrinkIfNeeded⟩

private theorem Holds.insertArray (O : Objects α) {idx : SQInteger B} (val : α)
    (hidx : 0 ≤ idx.toInt ∧ idx.toInt ≤ xs.length) (hgrows : GrowsByOne B v.allocated v.size) :
    ∃ v', v.insertArray B O idx val = some (some v') ∧
      v'.Holds B (xs.insertIdx idx.toInt.toNat val) := by
  have hlen := h.sizeInteger
  have hle : idx.toNat ≤ xs.length := by
    rw [toNat_of_nonneg hidx.1]
    omega
  obtain ⟨v', hv', hheld⟩ := h.insert O.null val hle hgrows
  rw [toNat_of_nonneg hidx.1] at hheld
  exact ⟨v', by rw [SqVector.insertArray, if_neg (by omega), hv']; rfl, hheld⟩

private theorem Holds.removeArray {idx : SQInteger B}
    (hidx : 0 ≤ idx.toInt ∧ idx.toInt < xs.length) :
    ∃ v', v.removeArray B idx = some (some v') ∧ v'.Holds B (xs.eraseIdx idx.toInt.toNat) := by
  have hlen := h.sizeInteger
  have hlt : idx.toNat < xs.length := by
    rw [toNat_of_nonneg hidx.1]
    omega
  obtain ⟨v', hv', hheld⟩ := h.remove hlt
  rw [toNat_of_nonneg hidx.1] at hheld
  exact ⟨_, by rw [SqVector.removeArray, if_neg (by omega), hv']; rfl, hheld.shrinkIfNeeded⟩

end Holds

variable (B) in
/-- `Create(0)` -/
theorem holds_create (O : Objects α) :
    ∃ v, SqVector.empty.resize B (0 : SQInteger B).toNat O.null = some v ∧ v.Holds B [] := by
  have hzero : (0 : SQInteger B).toNat = 0 := by simp
  rw [hzero]
  exact ⟨_, rfl, holds_empty⟩

end SqVector

open SqVector (holds_create)

/-- Each array holds the list of its name. -/
def ArrayStore.Holds (B : Build) (s : ArrayStore α ι) (l : ι → List α) : Prop :=
  ∀ a, (s a).Holds B (l a)

section Steps

variable [DecidableEq ι] {s : ArrayStore α ι} {l : ι → List α}

theorem ArrayStore.Holds.update (h : s.Holds B l) {v : SqVector α} {xs : List α}
    (hv : v.Holds B xs) (a : ι) :
    ArrayStore.Holds B (Function.update s a v) (Function.update l a xs) := by
  intro b
  by_cases hb : b = a
  · subst hb
    rwa [Function.update_self, Function.update_self]
  · rw [Function.update_of_ne hb, Function.update_of_ne hb]
    exact h b

/-- What has been appended is not read: the loop stops at the length there was. -/
theorem ArrayStore.get_extended {a b : ι} {i : ℕ}
    (h : s.Holds B (Function.update l a (l a ++ (l b).take i))) (hi : i < (l b).length) :
    (s b).get i = (l b)[i]? := by
  by_cases hb : b = a
  · subst hb
    have hself := h b
    rw [Function.update_self] at hself
    rw [hself.get (by rw [List.length_append]; omega), List.getElem?_append_left hi]
  · have hother := h b
    rw [Function.update_of_ne hb] at hother
    exact hother.get hi

theorem ArrayStore.extendFrom_step {a b : ι} {count i : ℕ}
    (h : s.Holds B (Function.update l a (l a ++ (l b).take i))) (hi : i < (l b).length) :
    extendFrom B a b (count + 1) i s = ((s a).pushBack B (l b)[i]).bind fun v =>
      extendFrom B a b count (i + 1) (Function.update s a v) := by
  have hget := get_extended h hi
  rw [List.getElem?_eq_getElem hi] at hget
  rw [extendFrom, hget]
  rfl

/-- A round of the loop, where the capacity is enough -/
theorem ArrayStore.extendFrom_round {a b : ι} {i : ℕ}
    (h : s.Holds B (Function.update l a (l a ++ (l b).take i))) (hi : i < (l b).length)
    (hgrows : SqVector.Grows B (s a).allocated (s a).size) :
    ∃ v, (s a).pushBack B (l b)[i] = some v ∧
      ArrayStore.Holds B (Function.update s a v)
        (Function.update l a (l a ++ (l b).take (i + 1))) ∧
      (Function.update s a v a).allocated = SqVector.grown (s a).allocated (s a).size ∧
      (Function.update s a v a).size = (s a).size + 1 := by
  have hself := h a
  rw [Function.update_self] at hself
  obtain ⟨v, hv, hheld, hallocated⟩ := hself.pushBack hgrows
  have hnext := h.update hheld a
  rw [Function.update_idem, List.append_assoc, List.take_append_getElem hi] at hnext
  have hsize := hself.size
  have hsize' := hheld.size
  rw [List.length_append, List.length_singleton, ← hsize] at hsize'
  refine ⟨v, hv, hnext, ?_, ?_⟩
  · rw [Function.update_self, hallocated]
  · rw [Function.update_self, hsize']

private theorem ArrayStore.extendFrom_none {a b : ι} {count i : ℕ}
    (h : s.Holds B (Function.update l a (l a ++ (l b).take i))) (hcount : i + count = (l b).length)
    (hout : ¬Extends B count (s a).allocated (s a).size) : extendFrom B a b count i s = none := by
  induction count generalizing i s with
  | zero => exact absurd trivial hout
  | succ count ih =>
    have hi : i < (l b).length := by omega
    rw [extendFrom_step h hi]
    by_cases hgrows : SqVector.Grows B (s a).allocated (s a).size
    · obtain ⟨v, hv, hnext, hallocated, hsize⟩ := extendFrom_round h hi hgrows
      rw [hv, Option.bind_some]
      refine ih hnext (by omega) ?_
      rw [hallocated, hsize]
      exact fun hrest => hout ⟨hgrows, hrest⟩
    · have hself := h a
      rw [Function.update_self] at hself
      rw [hself.pushBack_none hgrows]
      rfl

private theorem ArrayStore.extendFrom {a b : ι} {count i : ℕ}
    (h : s.Holds B (Function.update l a (l a ++ (l b).take i))) (hcount : i + count = (l b).length)
    (hin : Extends B count (s a).allocated (s a).size) :
    ∃ s', extendFrom B a b count i s = some s' ∧ s'.Holds B (Function.update l a (l a ++ l b)) := by
  induction count generalizing i s with
  | zero =>
    rw [List.take_of_length_le (by omega)] at h
    exact ⟨s, rfl, h⟩
  | succ count ih =>
    have hi : i < (l b).length := by omega
    obtain ⟨v, hv, hnext, hallocated, hsize⟩ := extendFrom_round h hi hin.1
    obtain ⟨s', hs', hheld⟩ := ih hnext (by omega) (by
      rw [hallocated, hsize]
      exact hin.2)
    refine ⟨s', ?_, hheld⟩
    rw [extendFrom_step h hi, hv]
    exact hs'

theorem ArrayStore.Holds.step (h : s.Holds B l) {op : ArrayOp B α ι} (hop : op.Within B s) :
    ∃ s', s.step B O op = some (s', (listStep B O l op).2) ∧
      ArrayStore.Holds B s' (listStep B O l op).1 := by
  cases op with
  | array a size fill =>
    obtain ⟨hpos, hlt⟩ := hop
    rw [listStep, if_pos hpos]
    have hempty (fill : α) : List.take size.toInt.toNat [] ++
        List.replicate (size.toInt.toNat - ([] : List α).length) fill =
          List.replicate size.toInt.toNat fill := by
      rw [List.take_nil, List.nil_append, List.length_nil, Nat.sub_zero]
    cases fill with
    | none =>
      obtain ⟨v, hv, hheld⟩ := SqVector.holds_empty.resizeInteger O.null hpos hlt
      rw [hempty] at hheld
      exact ⟨_, by rw [ArrayStore.step, hv]; rfl, h.update hheld a⟩
    | some fill =>
      obtain ⟨u, hu, hnil⟩ := holds_create B O
      obtain ⟨v, hv, hheld⟩ := hnil.resizeArray fill hpos hlt
      rw [hempty] at hheld
      refine ⟨_, ?_, h.update hheld a⟩
      rw [ArrayStore.step, hu, Option.bind_eq_bind, Option.bind_some, hv]
      rfl
  | append a val =>
    obtain ⟨v, hv, hheld, -⟩ := (h a).pushBack hop
    exact ⟨_, by rw [ArrayStore.step, hv]; rfl, h.update hheld a⟩
  | extend a b =>
    have hstart : s.Holds B (Function.update l a (l a ++ (l b).take 0)) := by
      rwa [List.take_zero, List.append_nil, Function.update_eq_self]
    have hlen := (h b).sizeInteger
    have hsize := (h b).size
    obtain ⟨s', hs', hheld⟩ := ArrayStore.extendFrom hstart (Nat.zero_add _) (hsize ▸ hop)
    refine ⟨s', ?_, hheld⟩
    rw [ArrayStore.step, hlen, Int.toNat_natCast, hs']
    rfl
  | pop a =>
    have hlen := (h a).sizeInteger
    have hsize := (h a).size
    by_cases hnil : l a = []
    · rw [listStep, ArrayStore.step, hlen, hnil]
      exact ⟨s, rfl, h⟩
    · have hpos : 0 < (l a).length := List.length_pos_iff.mpr hnil
      obtain ⟨v, hv, hheld⟩ := (h a).popArray hnil
      have htop : (s a).get ((s a).size - 1) = (l a).getLast? := by
        rw [(h a).get (by omega), hsize, List.getLast?_eq_getElem?]
      obtain ⟨top, hlast⟩ : ∃ top, (l a).getLast? = some top :=
        ⟨_, List.getLast?_eq_some_getLast hnil⟩
      rw [hlast] at htop
      rw [listStep, hlast]
      refine ⟨_, ?_, h.update hheld a⟩
      rw [ArrayStore.step, hlen, if_pos (by omega), htop, Option.bind_eq_bind, Option.bind_some, hv]
      rfl
  | insert a idx val =>
    have hlen := (h a).sizeInteger
    by_cases hin : 0 ≤ idx.toInt ∧ idx.toInt ≤ (l a).length
    · obtain ⟨v, hv, hheld⟩ := (h a).insertArray O val hin (hop ((h a).size ▸ hin))
      rw [listStep, if_pos hin]
      refine ⟨_, ?_, h.update hheld a⟩
      rw [ArrayStore.step, hv]
      rfl
    · have hfalse : (s a).insertArray B O idx val = some none := if_pos (by omega)
      rw [listStep, if_neg hin]
      exact ⟨s, by rw [ArrayStore.step, hfalse]; rfl, h⟩
  | remove a idx =>
    have hlen := (h a).sizeInteger
    by_cases hin : 0 ≤ idx.toInt ∧ idx.toInt < (l a).length
    · have hidx : idx.toInt.toNat < (l a).length := by omega
      obtain ⟨v, hv, hheld⟩ := (h a).removeArray hin
      have hget : (s a).getArray B O idx = some (some (O.realval (l a)[idx.toInt.toNat])) := by
        rw [SqVector.getArray, if_pos (by omega), toNat_of_nonneg hin.1, (h a).get hidx,
          List.getElem?_eq_getElem hidx]
        rfl
      rw [listStep, if_pos hin.1, List.getElem?_eq_getElem hidx]
      refine ⟨_, ?_, h.update hheld a⟩
      rw [ArrayStore.step, hget, Option.bind_eq_bind, Option.bind_some]
      dsimp only
      rw [hv]
      rfl
    · have hget : (s a).getArray B O idx = some none := if_neg (by omega)
      have hlist : listStep B O l (.remove a idx) = (l, .error "idx out of range") := by
        rw [listStep]
        split_ifs with hpos
        · rw [List.getElem?_eq_none (by omega)]
        · rfl
      rw [hlist]
      exact ⟨s, by rw [ArrayStore.step, hget]; rfl, h⟩
  | resize a size fill =>
    obtain ⟨hpos, hlt⟩ := hop
    obtain ⟨v, hv, hheld⟩ := (h a).resizeArray (fill.getD O.null) hpos hlt
    rw [listStep, if_pos hpos]
    exact ⟨_, by rw [ArrayStore.step, hv]; rfl, h.update hheld a⟩

theorem ArrayStore.Holds.step_none (h : s.Holds B l) {op : ArrayOp B α ι} (hop : ¬op.Within B s) :
    s.step B O op = none := by
  cases op with
  | array a size fill =>
    cases fill with
    | none =>
      rw [ArrayStore.step, SqVector.holds_empty.resize_integer_none hop]
      rfl
    | some fill =>
      obtain ⟨u, hu, hnil⟩ := holds_create B O
      rw [ArrayStore.step, hu, Option.bind_eq_bind, Option.bind_some, SqVector.resizeArray,
        hnil.resize_integer_none hop]
      rfl
  | append a val =>
    rw [ArrayStore.step, (h a).pushBack_none hop]
    rfl
  | extend a b =>
    have hstart : s.Holds B (Function.update l a (l a ++ (l b).take 0)) := by
      rwa [List.take_zero, List.append_nil, Function.update_eq_self]
    have hlen := (h b).sizeInteger
    have hsize := (h b).size
    rw [ArrayStore.step, hlen, Int.toNat_natCast,
      ArrayStore.extendFrom_none hstart (Nat.zero_add _) (hsize ▸ hop)]
    rfl
  | pop | remove => exact absurd trivial hop
  | insert a idx val =>
    rw [ArrayOp.Within, Classical.not_imp] at hop
    obtain ⟨hin, hgrows⟩ := hop
    have hlen := (h a).sizeInteger
    have hsize := (h a).size
    rw [ArrayStore.step, SqVector.insertArray, if_neg (by omega), (h a).insert_none hgrows]
    rfl
  | resize a size fill =>
    rw [ArrayStore.step, SqVector.resizeArray, (h a).resize_integer_none hop]
    rfl

end Steps

section Runs

variable [DecidableEq ι]

/-- The arrays do what the lists do, operation after operation, and each size stays within its
capacity. -/
def Refines (B : Build) (O : Objects α) :
    List (ArrayOp B α ι) → ArrayStore α ι → (ι → List α) → Prop
  | [], s, l => s.Holds B l
  | op :: ops, s, l => s.Holds B l ∧ ∃ s', s.step B O op = some (s', (listStep B O l op).2) ∧
    Refines B O ops s' (listStep B O l op).1

/-- Each operation is one for which the code is made, at the arrays it meets. -/
def AllWithin (B : Build) (O : Objects α) : List (ArrayOp B α ι) → ArrayStore α ι → Prop
  | [], _ => True
  | op :: ops, s => op.Within B s ∧
    ∀ s' res, s.step B O op = some (s', res) → AllWithin B O ops s'

theorem ArrayStore.Holds.refines_iff_allWithin {s : ArrayStore α ι} {l : ι → List α}
    (h : s.Holds B l)
    (ops : List (ArrayOp B α ι)) : Refines B O ops s l ↔ AllWithin B O ops s := by
  induction ops generalizing s l with
  | nil => exact iff_of_true h trivial
  | cons op ops ih =>
    by_cases hop : op.Within B s
    · obtain ⟨s', hs', hheld⟩ := h.step (O := O) hop
      constructor
      · rintro ⟨-, t, ht, hrest⟩
        obtain ⟨rfl, -⟩ := Prod.mk.inj (Option.some.inj (hs'.symm.trans ht))
        refine ⟨hop, fun u res hu => ?_⟩
        obtain ⟨rfl, -⟩ := Prod.mk.inj (Option.some.inj (hs'.symm.trans hu))
        exact (ih hheld).mp hrest
      · rintro ⟨-, hrest⟩
        exact ⟨h, s', hs', (ih hheld).mpr (hrest s' _ hs')⟩
    · refine iff_of_false ?_ fun hall => hop hall.1
      rintro ⟨-, t, ht, -⟩
      rw [h.step_none hop] at ht
      cases ht

omit [DecidableEq ι] in
theorem holds_start (B : Build) :
    ArrayStore.Holds B (fun _ : ι => SqVector.empty) fun _ => ([] : List α) :=
  fun _ => SqVector.holds_empty

/-- Arrays refine lists if and only if no size is negative and no block is too large. -/
theorem arrays_refine_lists_iff (B : Build) (O : Objects α) (ops : List (ArrayOp B α ι)) :
    Refines B O ops (fun _ => .empty) (fun _ => []) ↔ AllWithin B O ops fun _ => .empty :=
  (holds_start B).refines_iff_allWithin ops

end Runs

/-- 32 bits, with objects of eight bytes -/
def build32 : Build := ⟨32, 8, by decide, by decide⟩

/-- `array(-1)` -/
theorem array_negative_not_refines :
    ¬Refines build32 ⟨(), id⟩ [.array () (-1) none] (fun _ => .empty) fun _ : Unit => [] := by
  rw [(holds_start build32).refines_iff_allWithin]
  rintro ⟨⟨hpos, -⟩, -⟩
  exact absurd hpos (by decide)

end Squirt.Arrays
