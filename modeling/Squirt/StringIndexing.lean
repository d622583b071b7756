import Squirt.MetaOperations

/-!
# Indexing a string

`Get` of a string with a number reads one character of it, tests only the low 32 bits of the
index, and goes the wrong way from the end.
-/

namespace Squirt.VmOp

/-- The index `n` is for the position `p` of a string of the length `len`. -/
def Position (len : ℕ) (n : ℤ) (p : ℕ) : Prop :=
  (0 ≤ n ∧ n < len ∧ (p : ℤ) = n) ∨ (-len ≤ n ∧ n < 0 ∧ (p : ℤ) = len + n)

variable (rt : Runtime)

/-- `Get` of a string with a number: the character at the position of the index or an index error,
so that nothing else of the string is read; and the same character for another index of the same
position, if any. -/
structure IndexesString (str : String) (key : SQObject) (s : Store)
    (get : SQObject → Outcome Store MetaCall (Option SQObject)) : Prop where
  result : (∃ p c, Position str.length (tointeger rt key) p ∧ str.toList[p]? = some c ∧
      get key = .done (some (.integer c.toNat)) s []) ∨
    get key = (do raiseIdxError rt key; pure none : VmOp (Option SQObject)) s
  same : ∀ key' p c c', key'.isnumeric = true → Position str.length (tointeger rt key) p →
    Position str.length (tointeger rt key') p → get key = .done (some c) s [] →
    get key' = .done (some c') s [] → c = c'

/-- `abs((int)n)` is defined, and it is too large or the index itself is in the string. -/
def IndexTested (len : ℕ) (n : ℤ) : Prop :=
  Int.bmod n (2 ^ 32) ≠ -2 ^ 31 ∧ (len ≤ (Int.bmod n (2 ^ 32)).natAbs ∨ (0 ≤ n ∧ n < len))

variable {rt} {str : String} {key : SQObject} {s : Store}

/-- What `Get` makes of a string and a number -/
def stringChar (rt : Runtime) (str : String) (key : SQObject) (s : Store) :
    Outcome Store MetaCall (Option SQObject) :=
  let n := tointeger rt key
  if Int.bmod n (2 ^ 32) = -2 ^ 31 then .undefined s
  else if (Int.bmod n (2 ^ 32)).natAbs < str.length then
    match str.toList[(if n < 0 then str.length - n else n).toNat]? with
    | some c => .done (some (.integer c.toNat)) s []
    | none => .undefined s
  else (do raiseIdxError rt key; pure none : VmOp (Option SQObject)) s

private theorem getSlot_string (hkey : key.isnumeric = true)
    {k : Option (Option SQObject) → VmOp (Option SQObject)} (hk : ∀ res, k (some res) = pure res) :
    (getSlot rt (.string str) key >>= k) s = stringChar rt str key s := by
  simp only [getSlot, if_pos hkey, stringChar]
  generalize (if tointeger rt key < 0 then (str.length : ℤ) - tointeger rt key
    else tointeger rt key).toNat = i
  split_ifs with hmin hlt
  · rfl
  · cases hchar : str.toList[i]? with
    | some c => simp only [bind, Traced.step, Option.map_some, hk, pure, Traced.after,
        List.append_nil]
    | none => simp only [bind, Traced.step, Option.map_none]
  · have hnone : (pure (some none) >>= k : VmOp (Option SQObject)) = pure none := by
      funext s
      rw [Traced.bind_pure, hk]
    rw [Traced.bind_assoc, hnone]

/-- `Get` ends with the switch, since the string is indexed by a number. -/
theorem get_string (hkey : key.isnumeric = true) (fuel : ℕ) (raw : Bool) (selfidx : ℤ) :
    get rt (fuel + 1) (.string str) key raw selfidx s = stringChar rt str key s := by
  rw [get]
  exact getSlot_string hkey fun _ => rfl

/-- What is returned at all is the character at the index itself. -/
theorem stringChar_done {c : SQObject} (h : stringChar rt str key s = .done (some c) s []) :
    0 ≤ tointeger rt key ∧
      (str.toList[(tointeger rt key).toNat]?).map (fun c => SQObject.integer c.toNat) = some c := by
  unfold stringChar at h
  dsimp only at h
  split_ifs at h with hmin hlt hneg
  · -- the position that is read lies behind the string
    have hout : str.toList[((str.length : ℤ) - tointeger rt key).toNat]? = none := by
      rw [List.getElem?_eq_none_iff, String.length_toList]
      omega
    rw [hout] at h
    cases h
  · refine ⟨not_lt.mp hneg, ?_⟩
    cases hchar : str.toList[(tointeger rt key).toNat]? with
    | some ch =>
      rw [hchar] at h
      cases h
      rfl
    | none =>
      rw [hchar] at h
      cases h
  · cases h

private theorem stringChar_same {key' : SQObject} {p : ℕ} {c c' : SQObject}
    (hp : Position str.length (tointeger rt key) p)
    (hp' : Position str.length (tointeger rt key') p)
    (h : stringChar rt str key s = .done (some c) s [])
    (h' : stringChar rt str key' s = .done (some c') s []) : c = c' := by
  obtain ⟨hpos, hchar⟩ := stringChar_done h
  obtain ⟨hpos', hchar'⟩ := stringChar_done h'
  have heq : tointeger rt key = tointeger rt key' := by
    obtain ⟨-, -, hp⟩ | ⟨-, hneg, -⟩ := hp
    · obtain ⟨-, -, hp'⟩ | ⟨-, hneg, -⟩ := hp'
      · exact hp.symm.trans hp'
      · exact absurd hneg (not_lt.mpr hpos')
    · exact absurd hneg (not_lt.mpr hpos)
  rw [heq] at hchar
  exact Option.some.inj (hchar.symm.trans hchar')

/-- The character or the error, just when the index that is used has been tested -/
theorem stringChar_iff :
    ((∃ p c, Position str.length (tointeger rt key) p ∧ str.toList[p]? = some c ∧
      stringChar rt str key s = .done (some (.integer c.toNat)) s []) ∨
    stringChar rt str key s = (do raiseIdxError rt key; pure none : VmOp (Option SQObject)) s) ↔
      IndexTested str.length (tointeger rt key) := by
  unfold stringChar IndexTested
  dsimp only
  generalize tointeger rt key = n
  by_cases hmin : n.bmod (2 ^ 32) = -2 ^ 31
  · rw [if_pos hmin]
    refine iff_of_false ?_ fun h => h.1 hmin
    rintro (⟨p, c, -, -, h⟩ | h) <;> cases h
  by_cases hlt : (n.bmod (2 ^ 32)).natAbs < str.length
  · rw [if_neg hmin, if_pos hlt, or_iff_right (Nat.not_le.mpr hlt), and_iff_right hmin]
    by_cases hin : 0 ≤ n ∧ n < str.length
    · have hlen : n.toNat < str.toList.length := by
        rw [String.length_toList]
        omega
      rw [if_neg (by omega), List.getElem?_eq_getElem hlen]
      exact iff_of_true (.inl ⟨n.toNat, _, .inl ⟨hin.1, hin.2, Int.toNat_of_nonneg hin.1⟩,
        List.getElem?_eq_getElem hlen, rfl⟩) hin
    · have hout : str.toList[(if n < 0 then str.length - n else n).toNat]? = none := by
        rw [List.getElem?_eq_none_iff, String.length_toList]
        split_ifs <;> omega
      rw [hout]
      refine iff_of_false ?_ hin
      rintro (⟨p, c, -, -, h⟩ | h) <;> cases h
  · rw [if_neg hmin, if_neg hlt]
    exact iff_of_true (.inr rfl) ⟨hmin, .inl (Nat.not_lt.mp hlt)⟩

/-- The code does what it should just when it has tested the index that it uses. -/
theorem get_string_iff (hkey : key.isnumeric = true) (fuel : ℕ) (raw : Bool) (selfidx : ℤ) :
    IndexesString rt str key s (fun key => get rt (fuel + 1) (.string str) key raw selfidx s) ↔
      IndexTested str.length (tointeger rt key) := by
  rw [← stringChar_iff (s := s), ← get_string hkey fuel raw selfidx]
  refine ⟨fun h => h.result, fun h => ⟨h, ?_⟩⟩
  intro key' p c c' hkey' hp hp' hc hc'
  rw [get_string hkey] at hc
  rw [get_string hkey'] at hc'
  exact stringChar_same hp hp' hc hc'

theorem get_string_two :
    IndexesString nullRuntime "abc" (.integer 2) emptyStore
      (fun key => get nullRuntime 1 (.string "abc") key false 1 emptyStore) :=
  (get_string_iff rfl 0 false 1).mpr ⟨by decide, .inr (by decide)⟩

/-- The last character of a string by the index -1 -/
theorem get_string_last :
    ¬ ∀ (rt : Runtime) (str : String) (key : SQObject) (s : Store), key.isnumeric = true →
      ∀ fuel raw selfidx, IndexesString rt str key s
        (fun key => get rt (fuel + 1) (.string str) key raw selfidx s) := by
  intro hall
  have hout : get nullRuntime 1 (.string "abc") (.integer (-1)) false 1 emptyStore =
    .undefined emptyStore := rfl
  obtain ⟨⟨p, c, -, -, h⟩ | h, -⟩ := hall nullRuntime "abc" (.integer (-1)) emptyStore rfl 0 false 1
  · exact absurd (hout.symm.trans h) nofun
  · exact absurd (hout.symm.trans h) nofun

end Squirt.VmOp
