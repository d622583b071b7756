import Squirt.DelegateChains

/-!
# Slices

`slice` of arrays and strings: the decoding of the arguments that the two share, and what each
copies from its container.
-/

namespace Squirt

/-- The result of a native function that returns elements -/
inductive SliceResult (α : Type)
  | elements (xs : List α)
  | error (message : String)

namespace Slices

variable (rt : Runtime) (s : Store)

def sq_getsize : SQObject → ℤ
  | .array r => ((s.vm.arrays[r]?).getD []).length
  | .string str => str.length
  | _ => -1

/-- `get_slice_params`: `sidx`, `eidx` and `o`. A slot that does not exist is undefined. The second
slot is read whether it holds an argument or not. -/
def get_slice_params : Option (ℤ × ℤ × SQObject) :=
  let top := s.vm.top - s.vm.stackbase
  (s.stackGet 1).bind fun o => (s.stackGet 2).bind fun start =>
    let sidx := if start ≠ .null ∧ start.isnumeric then VmOp.tointeger rt start else 0
    if top > 2 then
      (s.stackGet 3).map fun end_ =>
        (sidx, if end_.isnumeric then VmOp.tointeger rt end_ else 0, o)
    else some (sidx, sq_getsize s o, o)

/-- The loop of `array_slice`, with what `t` holds before it; a position that `Get` does not find
leaves `t` as it was. -/
def copyLoop (get : ℤ → Option SQObject) : ℕ → ℤ → SQObject → List SQObject
  | 0, _, _ => []
  | n + 1, i, t =>
    let t := (get i).getD t
    t :: copyLoop get n (i + 1) t

/-- `SQString::Create(s, n)` of the characters from a position on; none when one of them lies
outside the string -/
def charsFrom (cs : List Char) : ℤ → ℕ → Option (List Char)
  | _, 0 => some []
  | i, n + 1 =>
    (if 0 ≤ i then cs[i.toNat]? else none).bind fun c => (charsFrom cs (i + 1) n).map (c :: ·)

/-- What `array_slice` and `string_slice` make of the arguments; `copy` copies so many elements from
a position on. -/
def slice {α : Type} (len sidx eidx : ℤ) (copy : ℤ → ℕ → Option (List α)) :
    Option (SliceResult α) :=
  let sidx := if sidx < 0 then len + sidx else sidx
  let eidx := if eidx < 0 then len + eidx else eidx
  if eidx < sidx then some (.error "wrong indexes")
  else if eidx > len then some (.error "slice out of range")
  else (copy sidx (eidx - sidx).toNat).map .elements

def array_slice : Option (SliceResult SQObject) :=
  (get_slice_params rt s).bind fun (sidx, eidx, o) =>
    match o with
    | .array r => slice (sq_getsize s o) sidx eidx fun i n =>
      some (copyLoop (VmOp.arrayGet s r) n i .null)
    | _ => none

def string_slice : Option (SliceResult Char) :=
  (get_slice_params rt s).bind fun (sidx, eidx, o) =>
    match o with
    | .string str => slice (sq_getsize s o) sidx eidx (charsFrom str.toList)
    | _ => none

/-- The arguments of a call that the type check lets through: the container, and numbers for the
start and the end that are given. The slot behind the container exists in any case. -/
structure Called (o : SQObject) (start end_ : Option SQObject) : Prop where
  container : s.stackGet 1 = some o
  second : ∃ x, s.stackGet 2 = some x ∧ ∀ a ∈ start, x = a
  numeric : ∀ a ∈ start.toList ++ end_.toList, a.isnumeric = true
  third : ∀ b ∈ end_, s.stackGet 3 = some b
  order : start = none → end_ = none
  top : 2 < s.vm.top - s.vm.stackbase ↔ end_.isSome

/-- An index with the length added when it is negative -/
def normal (len n : ℤ) : ℤ := if n < 0 then len + n else n

/-- An error, or just the elements from `first` up to `last` -/
def Takes {α : Type} (xs : List α) (first last : ℤ) (res : Option (SliceResult α)) : Prop :=
  (∃ message, res = some (.error message)) ∨
    (0 ≤ first ∧ first ≤ last ∧ last ≤ xs.length ∧
      res = some (.elements ((xs.drop first.toNat).take (last - first).toNat)))

/-- The number of an argument, or what stands for it when there is none -/
def argument (o : Option SQObject) (default : ℤ) : ℤ := (o.map (VmOp.tointeger rt)).getD default

/-- `slice` from the start, 0 when there is none, to the end, the length when there is none -/
def Sliced {α : Type} (xs : List α) (start end_ : Option SQObject)
    (res : Option (SliceResult α)) : Prop :=
  Takes xs (normal xs.length (argument rt start 0)) (normal xs.length (argument rt end_ xs.length))
    res

/-- The start that the code uses: that of the second slot, if it holds a number -/
def usedStart : ℤ :=
  match s.stackGet 2 with
  | some x => if x.isnumeric then VmOp.tointeger rt x else 0
  | none => 0

/-- The end lies before the start that the code uses or behind the container, or that start is the
one of the call and does not lie before the container. -/
def StartsInside (len : ℤ) (start end_ : Option SQObject) : Prop :=
  let used := normal len (usedStart rt s)
  let last := normal len (argument rt end_ len)
  last < used ∨ len < last ∨ (0 ≤ used ∧ used = normal len (argument rt start 0))

variable {rt s} {α : Type}

theorem params_eq {o : SQObject} {start end_ : Option SQObject} (h : Called s o start end_) :
    get_slice_params rt s = some (usedStart rt s, argument rt end_ (sq_getsize s o), o) := by
  obtain ⟨x, hx, -⟩ := h.second
  have hstart : (if x ≠ .null ∧ x.isnumeric then VmOp.tointeger rt x else 0) = usedStart rt s := by
    rw [usedStart, hx]
    by_cases hnum : x.isnumeric = true
    · have hne : x ≠ .null := by
        rintro rfl
        cases hnum
      simp [hne, hnum]
    · simp [hnum]
  unfold get_slice_params
  simp only [h.container, hx, Option.bind_some, hstart]
  cases end_ with
  | some b =>
    have hnum : b.isnumeric = true := h.numeric b (by simp)
    have htop := h.top.mpr rfl
    rw [if_pos htop, h.third b rfl, Option.map_some, if_pos hnum]
    rfl
  | none =>
    have htop : ¬ 2 < s.vm.top - s.vm.stackbase := fun htop => by cases h.top.mp htop
    rw [if_neg htop]
    rfl

/-- A copy that takes what lies inside of the container -/
structure Copies (xs : List α) (copy : ℤ → ℕ → Option (List α)) : Prop where
  inside : ∀ (i : ℤ) (n : ℕ), 0 ≤ i → i + n ≤ xs.length →
    copy i n = some ((xs.drop i.toNat).take n)
  length : ∀ i n ys, copy i n = some ys → ys.length = n

/-- With the guards of the code, only a start before the container goes wrong. -/
theorem slice_takes_iff {xs : List α} {copy : ℤ → ℕ → Option (List α)} (h : Copies xs copy)
    (sidx eidx first : ℤ) :
    Takes xs first (normal xs.length eidx) (slice xs.length sidx eidx copy) ↔
      normal xs.length eidx < normal xs.length sidx ∨ (xs.length : ℤ) < normal xs.length eidx ∨
        (0 ≤ normal xs.length sidx ∧ normal xs.length sidx = first) := by
  unfold slice
  change Takes xs first (normal xs.length eidx)
    (if normal xs.length eidx < normal xs.length sidx then some (.error "wrong indexes")
    else if normal xs.length eidx > xs.length then some (.error "slice out of range")
    else (copy (normal xs.length sidx)
      (normal xs.length eidx - normal xs.length sidx).toNat).map .elements) ↔ _
  generalize normal xs.length sidx = used
  generalize normal xs.length eidx = last
  split_ifs with hwrong hout
  · exact iff_of_true (.inl ⟨_, rfl⟩) (.inl hwrong)
  · exact iff_of_true (.inl ⟨_, rfl⟩) (.inr (.inl hout))
  rw [or_iff_right hwrong, or_iff_right hout]
  constructor
  · rintro (⟨message, herror⟩ | ⟨hfirst, hle, hlast, helements⟩)
    · obtain ⟨ys, -, hys⟩ := Option.map_eq_some_iff.mp herror
      cases hys
    · obtain ⟨ys, hcopy, hys⟩ := Option.map_eq_some_iff.mp helements
      have hlen := h.length _ _ _ hcopy
      cases hys
      rw [List.length_take, List.length_drop] at hlen
      omega
  · rintro ⟨hused, rfl⟩
    refine .inr ⟨hused, not_lt.mp hwrong, not_lt.mp hout, ?_⟩
    rw [h.inside _ _ hused (by omega), Option.map_some]

private theorem length_copyLoop (get : ℤ → Option SQObject) (n : ℕ) (i : ℤ) (t : SQObject) :
    (copyLoop get n i t).length = n := by
  induction n generalizing i t with
  | zero => rfl
  | succ n ih => rw [copyLoop, List.length_cons, ih]

/-- The elements of an array, as `Get` reads them -/
def elements (s : Store) (r : ℕ) : List SQObject := ((s.vm.arrays[r]?).getD []).map s.realval

private theorem arrayGet_eq (r n : ℕ) : VmOp.arrayGet s r n = (elements s r)[n]? := by
  rw [VmOp.arrayGet, if_pos (Int.natCast_nonneg n), elements, Int.toNat_natCast, List.getElem?_map]
  cases s.vm.arrays[r]? with
  | none => rfl
  | some values => rfl

private theorem copyLoop_inside (r n i : ℕ) (t : SQObject) (h : i + n ≤ (elements s r).length) :
    copyLoop (VmOp.arrayGet s r) n i t = ((elements s r).drop i).take n := by
  induction n generalizing i t with
  | zero => rw [copyLoop, List.take_zero]
  | succ n ih =>
    have hlt : i < (elements s r).length := by omega
    rw [copyLoop, arrayGet_eq, List.getElem?_eq_getElem hlt, Option.getD_some,
      List.drop_eq_getElem_cons hlt, List.take_succ_cons]
    exact congrArg _ (ih (i + 1) _ (by omega))

private theorem copies_array (r : ℕ) :
    Copies (elements s r) fun i n => some (copyLoop (VmOp.arrayGet s r) n i .null) where
  inside i n hi hle := by
    obtain ⟨k, rfl⟩ := Int.eq_ofNat_of_zero_le hi
    exact congrArg some (copyLoop_inside r n k .null (by omega))
  length i n ys h := by
    cases h
    exact length_copyLoop _ n i .null

private theorem charsFrom_inside (cs : List Char) (n i : ℕ) (h : i + n ≤ cs.length) :
    charsFrom cs i n = some ((cs.drop i).take n) := by
  induction n generalizing i with
  | zero => rw [charsFrom, List.take_zero]
  | succ n ih =>
    have hlt : i < cs.length := by omega
    have hnext : charsFrom cs (i + 1) n = _ := ih (i + 1) (by omega)
    rw [charsFrom, if_pos (Int.natCast_nonneg i), Int.toNat_natCast, List.getElem?_eq_getElem hlt,
      Option.bind_some, hnext, Option.map_some, List.drop_eq_getElem_cons hlt, List.take_succ_cons]

private theorem length_charsFrom (cs : List Char) (n : ℕ) (i : ℤ) (ys : List Char)
    (h : charsFrom cs i n = some ys) : ys.length = n := by
  induction n generalizing i ys with
  | zero =>
    cases h
    rfl
  | succ n ih =>
    obtain ⟨c, -, hc⟩ := Option.bind_eq_some_iff.mp h
    obtain ⟨zs, hzs, rfl⟩ := Option.map_eq_some_iff.mp hc
    rw [List.length_cons, ih _ _ hzs]

private theorem copies_string (cs : List Char) : Copies cs (charsFrom cs) where
  inside i n hi hle := by
    obtain ⟨k, rfl⟩ := Int.eq_ofNat_of_zero_le hi
    exact charsFrom_inside cs n k (by omega)
  length i n ys h := length_charsFrom cs n i ys h

private theorem sq_getsize_array (r : ℕ) : sq_getsize s (.array r) = (elements s r).length := by
  rw [sq_getsize, elements, List.length_map]

private theorem array_slice_eq {r : ℕ} {start end_ : Option SQObject}
    (h : Called s (.array r) start end_) :
    array_slice rt s =
      slice (elements s r).length (usedStart rt s) (argument rt end_ (elements s r).length)
        fun i n => some (copyLoop (VmOp.arrayGet s r) n i .null) := by
  rw [array_slice, params_eq h, Option.bind_some]
  simp only [sq_getsize_array]

private theorem string_slice_eq {str : String} {start end_ : Option SQObject}
    (h : Called s (.string str) start end_) :
    string_slice rt s =
      slice str.toList.length (usedStart rt s) (argument rt end_ str.toList.length)
        (charsFrom str.toList) := by
  rw [string_slice, params_eq h]
  rfl

/-- `slice` is an error or gives the elements of its range just when its start does not lie before
the container, or its other guards reject the call. -/
theorem slice_sliced_iff (rt : Runtime) (s : Store) (start end_ : Option SQObject) :
    (∀ r, Called s (.array r) start end_ →
      (Sliced rt (elements s r) start end_ (array_slice rt s) ↔
        StartsInside rt s (elements s r).length start end_)) ∧
    ∀ str, Called s (.string str) start end_ →
      (Sliced rt str.toList start end_ (string_slice rt s) ↔
        StartsInside rt s str.toList.length start end_) := by
  refine ⟨fun r h => ?_, fun str h => ?_⟩
  · rw [array_slice_eq h]
    exact slice_takes_iff (copies_array r) _ _ _
  · rw [string_slice_eq h]
    exact slice_takes_iff (copies_string str.toList) _ _ _

/-- A call of `slice` on a container with the arguments behind it -/
def callStore (container : SQObject) (arguments : List SQObject) : Store :=
  { emptyStore with
    vm :=
      { emptyStore.vm with
        stack := container :: arguments ++ [.null, .null]
        top := arguments.length + 1
        arrays := [[.integer 1, .integer 2, .integer 3]] } }

private theorem called_one_two (o : SQObject) :
    Called (callStore o [.integer 1, .integer (-1)]) o (some (.integer 1))
      (some (.integer (-1))) where
  container := rfl
  second := ⟨_, rfl, by rintro a ⟨⟩; rfl⟩
  numeric := by simp [SQObject.isnumeric, SQObject.type]
  third := by
    rintro b ⟨⟩
    rfl
  order := nofun
  top := iff_of_true (by decide : (2 : ℤ) < 3 - 0) rfl

theorem slice_sliced_middle :
    Sliced nullRuntime [.integer 1, .integer 2, .integer 3] (some (.integer 1))
        (some (.integer (-1)))
        (array_slice nullRuntime (callStore (.array 0) [.integer 1, .integer (-1)])) ∧
      Sliced nullRuntime ['a', 'b', 'c'] (some (.integer 1)) (some (.integer (-1)))
        (string_slice nullRuntime (callStore (.string "abc") [.integer 1, .integer (-1)])) :=
  ⟨((slice_sliced_iff nullRuntime _ _ _).1 0 (called_one_two _)).mpr
      (.inr (.inr ⟨by decide, by decide⟩)),
    ((slice_sliced_iff nullRuntime _ _ _).2 "abc" (called_one_two _)).mpr
      (.inr (.inr ⟨by decide, by decide⟩))⟩

/-- `[1, 2, 3].slice(-5)` has two nulls before the elements. -/
theorem slice_before_start :
    ¬ ∀ (rt : Runtime) (s : Store) (start end_ : Option SQObject),
      (∀ r, Called s (.array r) start end_ →
        Sliced rt (elements s r) start end_ (array_slice rt s)) ∧
      ∀ str, Called s (.string str) start end_ →
        Sliced rt str.toList start end_ (string_slice rt s) := by
  intro hall
  have hcalled : Called (callStore (.array 0) [.integer (-5)]) (.array 0) (some (.integer (-5)))
      none :=
    { container := rfl
      second := ⟨_, rfl, by rintro a ⟨⟩; rfl⟩
      numeric := by simp [SQObject.isnumeric, SQObject.type]
      third := nofun
      order := nofun
      top := iff_of_false (by decide : ¬ (2 : ℤ) < 2 - 0) nofun }
  have hslice := (hall nullRuntime (callStore (.array 0) [.integer (-5)]) (some (.integer (-5)))
    none).1 0 hcalled
  obtain ⟨message, herror⟩ | ⟨hfirst, -⟩ := hslice
  · cases herror
  · exact absurd hfirst (by decide)

end Slices
end Squirt
