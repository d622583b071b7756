import Mathlib.Data.Char
import Mathlib.Data.List.Lex
import Mathlib.Order.BoundedOrder.Basic
import Squirt.MetaOperations

/-!
# The order of strings, integers and null

`ObjCmp` and `CMP_OP` on scalars. Strings are compared by `scstrcmp`, which stops at the first NUL,
while they are equal if all of their characters are.
-/

namespace Squirt

section Strings

variable {α : Type*} [LinearOrder α]

/-- A three-way comparison -/
def compareSign (a b : α) : ℤ := if a < b then -1 else if b < a then 1 else 0

theorem compareSign_swap (a b : α) : compareSign b a = -compareSign a b := by
  unfold compareSign
  obtain h | rfl | h := lt_trichotomy a b
  · simp [h, h.not_gt]
  · simp
  · simp [h, h.not_gt]

theorem compareSign_nonpos {a b : α} : compareSign a b ≤ 0 ↔ a ≤ b := by
  unfold compareSign
  split_ifs with h h'
  · exact iff_of_true (by decide) h.le
  · exact iff_of_false (by decide) h'.not_ge
  · exact iff_of_true le_rfl (not_lt.mp h')

theorem compareSign_eq_zero {a b : α} : compareSign a b = 0 ↔ a = b := by
  unfold compareSign
  split_ifs with h h'
  · exact iff_of_false (by decide) h.ne
  · exact iff_of_false (by decide) h'.ne'
  · exact iff_of_true rfl (le_antisymm (not_lt.mp h') (not_lt.mp h))

theorem compareSign_of_lt {a b : α} (h : a < b) : compareSign a b = -1 := if_pos h

theorem compareSign_of_gt {a b : α} (h : b < a) : compareSign a b = 1 := by
  rw [compareSign_swap, compareSign_of_lt h, neg_neg]

theorem compareSign_self (a : α) : compareSign a a = 0 := compareSign_eq_zero.mpr rfl

private theorem compareSign_cons (a : α) (as bs : List α) :
    compareSign (a :: as) (a :: bs) = compareSign as bs := by
  have hcons : ∀ {l l' : List α}, l < l' → a :: l < a :: l' := fun h => List.cons_lt_cons_self.mpr h
  obtain h | rfl | h := lt_trichotomy as bs
  · rw [compareSign_of_lt h, compareSign_of_lt (hcons h)]
  · rw [compareSign_self, compareSign_self]
  · rw [compareSign_of_gt h, compareSign_of_gt (hcons h)]

variable [OrderBot α]

/-- `scstrcmp` of two strings, each with a NUL behind it; NUL is the least character. -/
def scstrcmp : List α → List α → ℤ
  | [], [] => 0
  | [], b :: _ => if b = ⊥ then 0 else -1
  | a :: _, [] => if a = ⊥ then 0 else 1
  | a :: as, b :: bs =>
    if a < b then -1 else if b < a then 1 else if a = ⊥ then 0 else scstrcmp as bs

/-- What a C string is read up to -/
def cString (val : List α) : List α := val.takeWhile (· ≠ ⊥)

theorem cString_bot (val : List α) : cString (⊥ :: val) = [] := by simp [cString]

theorem cString_cons {a : α} (ha : a ≠ ⊥) (val : List α) :
    cString (a :: val) = a :: cString val := by
  simp [cString, ha]

/-- A string that is read up to a greater character -/
theorem cString_cons_lt {a b : α} (h : a < b) (as bs : List α) :
    cString (a :: as) < cString (b :: bs) := by
  rw [cString_cons (bot_le.trans_lt h).ne']
  by_cases ha : a = ⊥
  · rw [ha, cString_bot]
    exact List.nil_lt_cons _ _
  · rw [cString_cons ha]
    exact List.cons_lt_cons_iff.mpr (.inl h)

/-- `scstrcmp` orders by what it reads. -/
theorem scstrcmp_eq (val val' : List α) :
    scstrcmp val val' = compareSign (cString val) (cString val') := by
  induction val generalizing val' with
  | nil =>
    cases val' with
    | nil => exact (compareSign_self _).symm
    | cons b bs =>
      unfold scstrcmp
      split_ifs with hb
      · rw [hb, cString_bot]
        exact (compareSign_self _).symm
      · rw [cString_cons hb]
        exact (compareSign_of_lt (List.nil_lt_cons _ _)).symm
  | cons a as ih =>
    cases val' with
    | nil =>
      unfold scstrcmp
      split_ifs with ha
      · rw [ha, cString_bot]
        exact (compareSign_self _).symm
      · rw [cString_cons ha]
        exact (compareSign_of_gt (List.nil_lt_cons _ _)).symm
    | cons b bs =>
      unfold scstrcmp
      split_ifs with hlt hgt hbot
      · exact (compareSign_of_lt (cString_cons_lt hlt as bs)).symm
      · exact (compareSign_of_gt (cString_cons_lt hgt bs as)).symm
      · obtain rfl : a = b := le_antisymm (not_lt.mp hgt) (not_lt.mp hlt)
        rw [hbot, cString_bot, cString_bot, compareSign_self]
      · obtain rfl : a = b := le_antisymm (not_lt.mp hgt) (not_lt.mp hlt)
        rw [cString_cons hbot, cString_cons hbot, compareSign_cons, ih]

end Strings

section Scalars

/-- Strings, integers and null -/
inductive Scalar (α : Type*)
  | null
  | integer (i : ℤ)
  | string (val : List α)
  deriving DecidableEq

inductive CmpOP
  | CMP_G | CMP_GE | CMP_L | CMP_LE | CMP_3W
  deriving DecidableEq

namespace Scalar

variable {α : Type*} [LinearOrder α] [OrderBot α]

/-- `ObjCmp`, none with an error. Strings are interned: `_rawval` is the same for equal ones. -/
def objCmp (o1 o2 : Scalar α) : Option ℤ :=
  if o1 = o2 then some 0
  else match o1, o2 with
    | string a, string b => some (scstrcmp a b)
    | integer a, integer b => some (if a < b then -1 else 1)
    | null, _ => some (-1)
    | _, null => some 1
    | _, _ => none

def isEqual (o1 o2 : Scalar α) : Bool := o1 = o2

/-- What `CMP_OP` stores -/
inductive CmpResult
  | bool (b : Bool)
  | integer (r : ℤ)
  deriving DecidableEq

/-- `CMP_OP`, none with an error -/
def cmpOp (op : CmpOP) (o1 o2 : Scalar α) : Option CmpResult :=
  (objCmp o1 o2).map fun r =>
    match op with
    | .CMP_G => .bool (r > 0)
    | .CMP_GE => .bool (r ≥ 0)
    | .CMP_L => .bool (r < 0)
    | .CMP_LE => .bool (r ≤ 0)
    | .CMP_3W => .integer r

@[simp] theorem objCmp_self (a : Scalar α) : objCmp a a = some 0 := if_pos rfl

@[simp] theorem objCmp_integer (i j : ℤ) :
    objCmp (integer i : Scalar α) (integer j) = some (compareSign i j) := by
  have hdef : objCmp (integer i : Scalar α) (integer j) =
      if (integer i : Scalar α) = integer j then some 0 else some (if i < j then -1 else 1) := rfl
  rw [hdef]
  obtain h | rfl | h := lt_trichotomy i j
  · rw [if_neg fun heq => h.ne (integer.inj heq), if_pos h, compareSign_of_lt h]
  · rw [if_pos rfl, compareSign_self]
  · rw [if_neg fun heq => h.ne' (integer.inj heq), if_neg h.not_gt, compareSign_of_gt h]

@[simp] theorem objCmp_string (a b : List α) :
    objCmp (string a) (string b) = some (compareSign (cString a) (cString b)) := by
  have hdef : objCmp (string a) (string b) =
      if string a = string b then some 0 else some (scstrcmp a b) := rfl
  rw [hdef, scstrcmp_eq]
  split_ifs with h
  · rw [string.inj h, compareSign_self]
  · rfl

theorem objCmp_swap (a b : Scalar α) : objCmp b a = (objCmp a b).map Neg.neg := by
  cases a with
  | null => cases b <;> rfl
  | integer i =>
    cases b with
    | integer j => rw [objCmp_integer, objCmp_integer, compareSign_swap, Option.map_some]
    | null | string _ => rfl
  | string a =>
    cases b with
    | string b => rw [objCmp_string, objCmp_string, compareSign_swap, Option.map_some]
    | null | integer _ => rfl

/-- `ObjCmp` finds the first object not greater than the second one. -/
def AtMost (o1 o2 : Scalar α) : Prop := ∃ r, objCmp o1 o2 = some r ∧ r ≤ 0

private theorem atMost_null (a : Scalar α) : AtMost null a := by
  cases a with
  | null => exact ⟨0, rfl, le_rfl⟩
  | integer _ | string _ => exact ⟨-1, rfl, by decide⟩

private theorem atMost_integer {i : ℤ} {a : Scalar α} (h : AtMost (integer i) a) :
    ∃ j, a = integer j ∧ i ≤ j := by
  obtain ⟨r, hr, hle⟩ := h
  cases a with
  | null =>
    obtain rfl := Option.some.inj hr
    exact absurd hle (by decide)
  | integer j =>
    rw [objCmp_integer, Option.some.injEq] at hr
    exact ⟨j, rfl, compareSign_nonpos.mp (hr ▸ hle)⟩
  | string _ => cases hr

private theorem atMost_string {val : List α} {a : Scalar α} (h : AtMost (string val) a) :
    ∃ val', a = string val' ∧ cString val ≤ cString val' := by
  obtain ⟨r, hr, hle⟩ := h
  cases a with
  | null =>
    obtain rfl := Option.some.inj hr
    exact absurd hle (by decide)
  | integer _ => cases hr
  | string val' =>
    rw [objCmp_string, Option.some.injEq] at hr
    exact ⟨val', rfl, compareSign_nonpos.mp (hr ▸ hle)⟩

theorem AtMost.trans {a b c : Scalar α} (h : AtMost a b) (h' : AtMost b c) : AtMost a c := by
  cases a with
  | null => exact atMost_null c
  | integer i =>
    obtain ⟨j, rfl, hij⟩ := atMost_integer h
    obtain ⟨k, rfl, hjk⟩ := atMost_integer h'
    exact ⟨_, objCmp_integer i k, compareSign_nonpos.mpr (hij.trans hjk)⟩
  | string val =>
    obtain ⟨val', rfl, hle⟩ := atMost_string h
    obtain ⟨val'', rfl, hle'⟩ := atMost_string h'
    exact ⟨_, objCmp_string val val'', compareSign_nonpos.mpr (hle.trans hle')⟩

/-- `ObjCmp` orders the scalars of a list, it agrees with `IsEqual` on them, and so do the
operators; a list that is sorted by it is determined by its elements. -/
structure Ordered (l : List (Scalar α)) : Prop where
  antisymm : ∀ a ∈ l, ∀ b ∈ l, ∀ r, objCmp a b = some r →
    ∃ r', objCmp b a = some r' ∧ r'.sign = -r.sign
  trans : ∀ a ∈ l, ∀ b ∈ l, ∀ c ∈ l, AtMost a b → AtMost b c → AtMost a c
  equal : ∀ a ∈ l, ∀ b ∈ l, objCmp a b = some 0 ↔ isEqual a b
  less : ∀ a ∈ l, ∀ b ∈ l, cmpOp .CMP_L a b = cmpOp .CMP_G b a
  lessEqual : ∀ a ∈ l, ∀ b ∈ l, cmpOp .CMP_LE a b = some (.bool true) ↔
    cmpOp .CMP_L a b = some (.bool true) ∨ isEqual a b
  greaterEqual : ∀ a ∈ l, ∀ b ∈ l, cmpOp .CMP_GE a b = some (.bool true) ↔
    cmpOp .CMP_G a b = some (.bool true) ∨ isEqual a b
  threeWay : ∀ a ∈ l, ∀ b ∈ l, cmpOp .CMP_3W a b = some (.integer 0) ↔ isEqual a b
  sorted : ∀ l₁ l₂ : List (Scalar α), l₁.Perm l → l₂.Perm l → l₁.Pairwise AtMost →
    l₂.Pairwise AtMost → l₁ = l₂

/-- Comparing equal is being equal, if `scstrcmp` reads all that tells the strings apart. -/
theorem objCmp_eq_zero_iff {a b : Scalar α}
    (h : ∀ val val', a = string val → b = string val' → cString val = cString val' → val = val') :
    objCmp a b = some 0 ↔ isEqual a b := by
  rw [isEqual, decide_eq_true_iff]
  constructor
  · intro hzero
    cases a with
    | null => cases b <;> first | rfl | cases hzero
    | integer i =>
      cases b with
      | integer j =>
        rw [objCmp_integer, Option.some.injEq, compareSign_eq_zero] at hzero
        rw [hzero]
      | null | string _ => cases hzero
    | string val =>
      cases b with
      | string val' =>
        rw [objCmp_string, Option.some.injEq, compareSign_eq_zero] at hzero
        rw [h val val' rfl rfl hzero]
      | null | integer _ => cases hzero
  · rintro rfl
    exact objCmp_self a

private theorem antisymm_of_objCmp {a b : Scalar α} (h : objCmp a b = some 0 ↔ isEqual a b)
    (hab : AtMost a b) (hba : AtMost b a) : a = b := by
  obtain ⟨r, hr, hle⟩ := hab
  obtain ⟨r', hr', hle'⟩ := hba
  rw [objCmp_swap a b, hr, Option.map_some, Option.some.injEq] at hr'
  have hzero : r = 0 := by
    change -r = r' at hr'
    omega
  exact of_decide_eq_true (h.mp (hzero ▸ hr))

private theorem cmpOp_bool {op : CmpOP} {a b : Scalar α} {p : ℤ → Prop} [DecidablePred p]
    (hop : cmpOp op a b = (objCmp a b).map fun r => .bool (p r)) :
    cmpOp op a b = some (.bool true) ↔ ∃ r, objCmp a b = some r ∧ p r := by
  rw [hop, Option.map_eq_some_iff]
  simp

/-- `<=` and `>=` are `<` and `>` or equal. -/
theorem cmpOp_or {op op' : CmpOP} {a b : Scalar α} {p q : ℤ → Prop} [DecidablePred p]
    [DecidablePred q] (hop : cmpOp op a b = (objCmp a b).map fun r => .bool (p r))
    (hop' : cmpOp op' a b = (objCmp a b).map fun r => .bool (q r))
    (hpq : ∀ r, p r ↔ q r ∨ r = 0) (h : objCmp a b = some 0 ↔ isEqual a b) :
    cmpOp op a b = some (.bool true) ↔ cmpOp op' a b = some (.bool true) ∨ isEqual a b := by
  rw [cmpOp_bool hop, cmpOp_bool hop', ← h]
  constructor
  · rintro ⟨r, hr, hp⟩
    obtain hq | rfl := (hpq r).mp hp
    · exact .inl ⟨r, hr, hq⟩
    · exact .inr hr
  · rintro (⟨r, hr, hq⟩ | hzero)
    · exact ⟨r, hr, (hpq r).mpr (.inl hq)⟩
    · exact ⟨0, hzero, (hpq 0).mpr (.inr rfl)⟩

/-- `ObjCmp` is a total order that agrees with equality on scalars, if and only if no two different
strings among them agree up to their first NUL. -/
theorem ordered_iff (l : List (Scalar α)) : Ordered l ↔ ∀ val val', string val ∈ l →
    string val' ∈ l → cString val = cString val' → val = val' := by
  constructor
  · intro h val val' hval hval' heq
    have hzero : objCmp (string val) (string val') = some 0 := by
      rw [objCmp_string, heq, compareSign_self]
    exact string.inj (of_decide_eq_true ((h.equal _ hval _ hval').mp hzero))
  · intro h
    have hequal : ∀ a ∈ l, ∀ b ∈ l, objCmp a b = some 0 ↔ isEqual a b := by
      intro a ha b hb
      refine objCmp_eq_zero_iff ?_
      rintro val val' rfl rfl heq
      exact h val val' ha hb heq
    refine ⟨fun a _ b _ r hr => ?_, fun _ _ _ _ _ _ => AtMost.trans, hequal, fun a _ b _ => ?_,
      fun a ha b hb => ?_, fun a ha b hb => ?_, fun a ha b hb => ?_, fun l₁ l₂ h₁ h₂ hs₁ hs₂ => ?_⟩
    · exact ⟨-r, by rw [objCmp_swap a b, hr]; rfl, Int.sign_neg r⟩
    · unfold cmpOp
      rw [objCmp_swap a b, Option.map_map]
      congr
      funext r
      simp
    · exact cmpOp_or rfl rfl (fun r => le_iff_lt_or_eq) (hequal a ha b hb)
    · exact cmpOp_or rfl rfl (fun r => by rw [ge_iff_le, le_iff_lt_or_eq, gt_iff_lt, eq_comm]) (hequal a ha b hb)
    · rw [← hequal a ha b hb, cmpOp, Option.map_eq_some_iff]
      simp
    · refine (h₁.trans h₂.symm).eq_of_pairwise (fun a b ha hb hab hba => ?_) hs₁ hs₂
      exact antisymm_of_objCmp (hequal a (h₁.mem_iff.mp ha) b (h₂.mem_iff.mp hb)) hab hba

/-- `"a\0b"` and `"a\0c"`, with characters as numbers -/
theorem not_ordered : ¬ ∀ l : List (Scalar ℕ), Ordered l := by
  intro h
  have hequal := (h [string [97, 0, 98], string [97, 0, 99]]).equal (string [97, 0, 98])
    List.mem_cons_self (string [97, 0, 99]) (by decide)
  exact absurd (hequal.mp (by decide)) (by decide)

end Scalar

end Scalars

section Objects

instance orderBotChar : OrderBot Char where
  bot := Char.ofNat 0
  bot_le _ := Char.le_def.mpr (UInt32.le_iff_toNat_le.mpr (Nat.zero_le _))

namespace Scalar

def object : Scalar Char → SQObject
  | null => .null
  | integer i => .integer i
  | string val => .string (String.ofList val)

private theorem object_inj {a b : Scalar Char} : a.object = b.object ↔ a = b := by
  refine ⟨fun h => ?_, congrArg object⟩
  cases a with
  | null => cases b <;> first | rfl | cases h
  | integer i =>
    cases b with
    | integer j =>
      obtain ⟨-, rfl⟩ := SQObject.data.inj h
      rfl
    | null | string _ => cases h
  | string val =>
    cases b with
    | string val' => rw [String.ofList_injective (SQObject.string.inj h)]
    | null | integer _ => cases h

theorem VmOp.objCmp_self {rt : Runtime} (o : SQObject) (s : Store) :
    Squirt.VmOp.objCmp rt o o s = .done (some 0) s [] := by
  simp only [Squirt.VmOp.objCmp, if_true]
  rfl

/-- `ObjCmp` of the interpreter, with an error raised for none -/
theorem objCmp_object {rt : Runtime} (hstrcmp : ∀ a b, rt.strcmp a b = scstrcmp a.toList b.toList)
    (a b : Scalar Char) (s : Store) :
    ∃ s', VmOp.objCmp rt a.object b.object s = .done (objCmp a b) s' [] := by
  by_cases h : a = b
  · subst h
    exact ⟨s, by rw [objCmp_self, VmOp.objCmp_self]⟩
  · have hne : a.object ≠ b.object := mt object_inj.mp h
    cases a with
    | null => cases b <;> first | exact absurd rfl h | exact ⟨s, rfl⟩
    | integer i =>
      cases b with
      | null => exact ⟨s, rfl⟩
      | string val => exact ⟨_, rfl⟩
      | integer j =>
        have hobjCmp : VmOp.objCmp rt (.integer i) (.integer j) = if SQObject.integer i = .integer j
            then pure (some 0) else pure (some (if i < j then -1 else 1)) := rfl
        have hne : SQObject.integer i ≠ .integer j := hne
        refine ⟨s, ?_⟩
        rw [objCmp, if_neg h, object, object, hobjCmp, if_neg hne]
        rfl
    | string val =>
      cases b with
      | null => exact ⟨s, rfl⟩
      | integer i => exact ⟨_, rfl⟩
      | string val' =>
        have hobjCmp : ∀ a b, VmOp.objCmp rt (.string a) (.string b) = if SQObject.string a =
            .string b then pure (some 0) else pure (some (rt.strcmp a b)) := fun _ _ => rfl
        have hne : SQObject.string (String.ofList val) ≠ .string (String.ofList val') := hne
        refine ⟨s, ?_⟩
        rw [objCmp, if_neg h, object, object, hobjCmp, if_neg hne, hstrcmp, String.toList_ofList,
          String.toList_ofList]
        rfl

end Scalar

end Objects

end Squirt
