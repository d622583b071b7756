import Mathlib.Data.List.Sort
import Mathlib.Data.List.GetD
import Mathlib.Tactic.Linarith

/-!
# The line of an instruction

`SQFunctionProto::GetLine`, a binary search of the line infos for the instruction pointer, which
is already one past the instruction that executes.
-/

namespace Squirt

structure SQLineInfo where
  line : ℤ
  op : ℤ
  deriving DecidableEq

namespace SQFunctionProto

/-- The loop of `GetLine`: the `mid` that it ends with, none when it is out of steps or reads no
line info. -/
def getLineLoop (lineinfos : List SQLineInfo) (op : ℤ) : ℕ → ℤ → ℤ → ℤ → Option ℤ
  | 0, _, _, _ => none
  | fuel + 1, low, high, mid =>
    if low ≤ high then
      let mid := low + (high - low) / 2
      (lineinfos[mid.toNat]?).bind fun cur =>
        if cur.op > op then getLineLoop lineinfos op fuel low (mid - 1) mid
        else if cur.op < op then
          if mid < (lineinfos.length : ℤ) - 1 then
            (lineinfos[(mid + 1).toNat]?).bind fun next =>
              if next.op ≥ op then some mid
              else getLineLoop lineinfos op fuel (mid + 1) high mid
          else getLineLoop lineinfos op fuel (mid + 1) high mid
        else some mid
    else some mid

/-- `GetLine` of the instruction pointer at position `op` -/
def getLine (lineinfos : List SQLineInfo) (op : ℤ) : Option ℤ :=
  (getLineLoop lineinfos op (lineinfos.length + 1) 0 (lineinfos.length - 1) 0).bind fun mid =>
    (lineinfos[mid.toNat]?).map SQLineInfo.line

/-- The last entry whose `_op` is at most `i` -/
def entryOf (lineinfos : List SQLineInfo) (i : ℤ) : Option SQLineInfo :=
  (lineinfos.filter fun info => info.op ≤ i).getLast?

/-- Which of the positions `j - 1` and `j` comes first when `low..high` is halved towards them -/
def halving (j : ℤ) : ℕ → ℤ → ℤ → Option ℤ
  | 0, _, _ => none
  | fuel + 1, low, high =>
    let mid := low + (high - low) / 2
    if mid = j - 1 ∨ mid = j then some mid
    else if mid > j then halving j fuel low (mid - 1)
    else halving j fuel (mid + 1) high

/-- The entry at `j` is for the next instruction, and the search meets it before the entry in
front of it, which has another line. -/
def Overshoots (lineinfos : List SQLineInfo) (i : ℤ) (j : ℕ) : Prop :=
  ∃ prev next, lineinfos[j]? = some prev ∧ lineinfos[j + 1]? = some next ∧ next.op = i + 1 ∧
    prev.line ≠ next.line ∧
    halving (j + 1) (lineinfos.length + 1) 0 (lineinfos.length - 1) = some (j + 1 : ℤ)

variable {lineinfos : List SQLineInfo} {i : ℤ} {p : ℕ}

/-- The entries up to `p` are for `i` and what comes before it, the others for what follows. -/
structure SplitAt (lineinfos : List SQLineInfo) (i : ℤ) (p : ℕ) : Prop where
  lt : p < lineinfos.length
  upTo : ∀ k info, lineinfos[k]? = some info → k ≤ p → info.op ≤ i
  past : ∀ k info, lineinfos[k]? = some info → p < k → i < info.op

private theorem exists_splitAt (hinc : lineinfos.Pairwise fun a b => a.op < b.op)
    (hentry : ∃ info ∈ lineinfos, info.op ≤ i) : ∃ p, SplitAt lineinfos i p := by
  induction lineinfos with
  | nil =>
    obtain ⟨info, hmem, -⟩ := hentry
    cases hmem
  | cons head rest ih =>
    obtain ⟨hhead, hrest⟩ := List.pairwise_cons.mp hinc
    by_cases hlater : ∃ info ∈ rest, info.op ≤ i
    · obtain ⟨p, hlt, hupTo, hpast⟩ := ih hrest hlater
      obtain ⟨info, hmem, hinfo⟩ := hlater
      refine ⟨p + 1, Nat.succ_lt_succ hlt, fun k info' hk hle => ?_, fun k info' hk hlt' => ?_⟩
      · cases k with
        | zero =>
          cases hk
          exact ((hhead info hmem).trans_le hinfo).le
        | succ k => exact hupTo k info' hk (Nat.le_of_succ_le_succ hle)
      · cases k with
        | zero => exact absurd hlt' (Nat.not_lt_zero _)
        | succ k => exact hpast k info' hk (Nat.lt_of_succ_lt_succ hlt')
    · refine ⟨0, Nat.succ_pos _, fun k info hk hle => ?_, fun k info hk hlt => ?_⟩
      · obtain rfl := Nat.le_zero.mp hle
        cases hk
        obtain ⟨info, hmem, hinfo⟩ := hentry
        obtain rfl | hmem := List.mem_cons.mp hmem
        · exact hinfo
        · exact absurd ⟨info, hmem, hinfo⟩ hlater
      · cases k with
        | zero => exact absurd hlt (lt_irrefl _)
        | succ k =>
          exact lt_of_not_ge fun hge => hlater ⟨info, List.mem_of_getElem? hk, hge⟩

private theorem SplitAt.entryOf_eq (h : SplitAt lineinfos i p) : entryOf lineinfos i = lineinfos[p]?
    := by
  have hkeep : (lineinfos.take (p + 1)).filter (fun info => info.op ≤ i) =
      lineinfos.take (p + 1) := by
    refine List.filter_eq_self.mpr fun info hmem => ?_
    obtain ⟨k, hk⟩ := List.mem_iff_getElem?.mp hmem
    rw [List.getElem?_take] at hk
    split_ifs at hk with hlt
    exact decide_eq_true (h.upTo k info hk (Nat.lt_succ_iff.mp hlt))
  have hdrop : (lineinfos.drop (p + 1)).filter (fun info => info.op ≤ i) = [] := by
    refine List.filter_eq_nil_iff.mpr fun info hmem => ?_
    obtain ⟨k, hk⟩ := List.mem_iff_getElem?.mp hmem
    rw [List.getElem?_drop] at hk
    have hpast := h.past _ info hk (by omega)
    simpa using hpast
  rw [entryOf, ← List.take_append_drop (p + 1) lineinfos, List.filter_append, hkeep, hdrop,
    List.append_nil, List.take_append_drop, List.getLast?_eq_getElem?, List.length_take,
    Nat.min_eq_left h.lt, List.getElem?_take]
  simp

/-- A position between `low` and `high` has an entry. -/
theorem exists_mid {low high : ℤ} (hlow : 0 ≤ low) (hle : low ≤ high)
    (hhigh : high < lineinfos.length) :
    ∃ (k : ℕ) (info : SQLineInfo), low + (high - low) / 2 = k ∧ low ≤ k ∧ (k : ℤ) ≤ high ∧
      lineinfos[k]? = some info := by
  have hnonneg : 0 ≤ low + (high - low) / 2 := by omega
  obtain ⟨k, hk⟩ := Int.eq_ofNat_of_zero_le hnonneg
  have hlt : k < lineinfos.length := by omega
  exact ⟨k, lineinfos[k], hk, by omega, by omega, List.getElem?_eq_getElem hlt⟩

/-- Without an entry for the next instruction, the search ends at the entry it is to find. -/
theorem SplitAt.loop_eq (h : SplitAt lineinfos i p)
    (hgap : ∀ k info, lineinfos[k]? = some info → p < k → i + 1 < info.op) {fuel : ℕ}
    {low high mid : ℤ} (hlow : 0 ≤ low) (hlp : low ≤ p) (hph : p ≤ high)
    (hhigh : high < lineinfos.length) (hfuel : high - low + 1 < fuel) :
    getLineLoop lineinfos (i + 1) fuel low high mid = some (p : ℤ) := by
  induction fuel generalizing low high mid with
  | zero => omega
  | succ fuel ih =>
    obtain ⟨k, info, hmid, hlk, hkh, hk⟩ := exists_mid hlow (hlp.trans hph) hhigh
    simp only [getLineLoop, if_pos (hlp.trans hph), hmid, Int.toNat_natCast, hk, Option.bind_some]
    obtain hkp | rfl | hpk := lt_trichotomy k p
    · have hinfo := h.upTo k info hk hkp.le
      have hklt : k + 1 < lineinfos.length := by
        have := h.lt
        omega
      have hnext := h.upTo (k + 1) _ (List.getElem?_eq_getElem hklt) hkp
      have hsucc : ((k : ℤ) + 1).toNat = k + 1 := by omega
      rw [if_neg (by omega), if_pos (by omega), if_pos (by omega), hsucc,
        List.getElem?_eq_getElem hklt, Option.bind_some, if_neg (by omega)]
      exact ih (by omega) (by omega) hph hhigh (by omega)
    · have hinfo := h.upTo k info hk le_rfl
      rw [if_neg (by omega), if_pos (by omega)]
      by_cases hklt : k + 1 < lineinfos.length
      · have hnext := hgap (k + 1) _ (List.getElem?_eq_getElem hklt) (Nat.lt_succ_self k)
        have hsucc : ((k : ℤ) + 1).toNat = k + 1 := by omega
        rw [if_pos (by omega), hsucc, List.getElem?_eq_getElem hklt, Option.bind_some,
          if_pos (by omega)]
      · -- the last entry; the loop ends with it
        rw [if_neg (by omega)]
        obtain ⟨fuel, rfl⟩ := Nat.exists_eq_succ_of_ne_zero (by omega : fuel ≠ 0)
        rw [getLineLoop, if_neg (by omega)]
    · have hinfo := hgap k info hk hpk
      rw [if_pos (by omega)]
      exact ih hlow hlp (by omega) (by omega) (by omega)

/-- With an entry for the next instruction, the search ends at the first of the two that it
meets. -/
theorem SplitAt.loop_eq_halving (h : SplitAt lineinfos i p) {next : SQLineInfo}
    (hnext : lineinfos[p + 1]? = some next) (hop : next.op = i + 1)
    (hpast : ∀ k info, lineinfos[k]? = some info → p + 1 < k → i + 1 < info.op) {fuel : ℕ}
    {low high mid : ℤ} (hlow : 0 ≤ low) (hlp : low ≤ p) (hph : (p : ℤ) + 1 ≤ high)
    (hhigh : high < lineinfos.length) (hfuel : high - low < fuel) :
    getLineLoop lineinfos (i + 1) fuel low high mid = halving (p + 1) fuel low high := by
  induction fuel generalizing low high mid with
  | zero => omega
  | succ fuel ih =>
    obtain ⟨k, info, hmid, hlk, hkh, hk⟩ := exists_mid hlow (by omega : low ≤ high) hhigh
    simp only [getLineLoop, halving, if_pos (by omega : low ≤ high), hmid, Int.toNat_natCast, hk,
      Option.bind_some]
    have hsucc : ((k : ℤ) + 1).toNat = k + 1 := by omega
    obtain hkp | rfl | hpk := lt_trichotomy k p
    · have hinfo := h.upTo k info hk hkp.le
      have hklt : k + 1 < lineinfos.length := by
        have := h.lt
        omega
      have hafter := h.upTo (k + 1) _ (List.getElem?_eq_getElem hklt) hkp
      rw [if_neg (by omega), if_pos (by omega), if_pos (by omega), hsucc,
        List.getElem?_eq_getElem hklt, Option.bind_some, if_neg (by omega), if_neg (by omega),
        if_neg (by omega)]
      exact ih (by omega) (by omega) hph hhigh (by omega)
    · have hinfo := h.upTo k info hk le_rfl
      rw [if_neg (by omega), if_pos (by omega), if_pos (by omega), hsucc, hnext, Option.bind_some,
        if_pos (by omega), if_pos (by omega)]
    · obtain rfl | hpk := Nat.eq_or_lt_of_le hpk
      · rw [Nat.succ_eq_add_one, hnext] at hk
        cases hk
        rw [if_neg (by omega), if_neg (by omega), if_pos (by omega)]
      · have hinfo := hpast k info hk hpk
        rw [if_pos (by omega), if_neg (by omega), if_pos (by omega)]
        exact ih hlow hlp (by omega) (by omega) (by omega)

/-- Halving ends at one of the two positions. -/
theorem halving_cases {j : ℤ} {fuel : ℕ} {low high : ℤ} (hlow : low < j) (hhigh : j ≤ high)
    (hfuel : high - low < fuel) :
    halving j fuel low high = some (j - 1) ∨ halving j fuel low high = some j := by
  induction fuel generalizing low high with
  | zero => omega
  | succ fuel ih =>
    rw [halving]
    generalize hmid : low + (high - low) / 2 = mid
    split_ifs with hfound hgt
    · obtain rfl | rfl := hfound
      · exact .inl rfl
      · exact .inr rfl
    · exact ih hlow (by omega) (by omega)
    · exact ih (by omega) hhigh (by omega)

/-- `GetLine` of the pointer that is one past `i` gives the line of the entry for `i`. -/
def FindsLine (lineinfos : List SQLineInfo) (i : ℤ) : Prop :=
  ∃ info, entryOf lineinfos i = some info ∧ getLine lineinfos (i + 1) = some info.line

theorem op_lt_op (hinc : lineinfos.Pairwise fun a b => a.op < b.op) {k k' : ℕ}
    {info info' : SQLineInfo} (hk : lineinfos[k]? = some info) (hk' : lineinfos[k']? = some info')
    (hlt : k < k') : info.op < info'.op := by
  obtain ⟨hlen, rfl⟩ := List.getElem?_eq_some_iff.mp hk
  obtain ⟨hlen', rfl⟩ := List.getElem?_eq_some_iff.mp hk'
  exact List.pairwise_iff_getElem.mp hinc k k' hlen hlen' hlt

theorem SplitAt.findsLine_iff (h : SplitAt lineinfos i p) {prev : SQLineInfo}
    (hprev : lineinfos[p]? = some prev) :
    FindsLine lineinfos i ↔ getLine lineinfos (i + 1) = some prev.line := by
  rw [FindsLine, h.entryOf_eq, hprev]
  exact ⟨fun ⟨info, heq, hline⟩ => Option.some.inj heq ▸ hline, fun hline => ⟨prev, rfl, hline⟩⟩

/-- No entry is for the next instruction. -/
theorem SplitAt.findsLine_of_gap (h : SplitAt lineinfos i p)
    (hgap : ∀ k info, lineinfos[k]? = some info → p < k → i + 1 < info.op) :
    FindsLine lineinfos i := by
  have hlt := h.lt
  have hprev := List.getElem?_eq_getElem hlt
  have hloop : getLineLoop lineinfos (i + 1) (lineinfos.length + 1) 0 (lineinfos.length - 1) 0 =
      some (p : ℤ) :=
    h.loop_eq hgap le_rfl (by omega) (by omega) (by omega) (by push_cast; omega)
  rw [h.findsLine_iff hprev, getLine, hloop, Option.bind_some, Int.toNat_natCast, hprev,
    Option.map_some]

/-- The entry at `p + 1` is for the next instruction. -/
theorem SplitAt.findsLine_iff_of_next (h : SplitAt lineinfos i p)
    (hinc : lineinfos.Pairwise fun a b => a.op < b.op) {prev next : SQLineInfo}
    (hprev : lineinfos[p]? = some prev) (hnext : lineinfos[p + 1]? = some next)
    (hop : next.op = i + 1) :
    FindsLine lineinfos i ↔ prev.line = next.line ∨
      halving (p + 1) (lineinfos.length + 1) 0 (lineinfos.length - 1) ≠ some (p + 1 : ℤ) := by
  have hlt : p + 1 < lineinfos.length := (List.getElem?_eq_some_iff.mp hnext).1
  have hpast : ∀ k info, lineinfos[k]? = some info → p + 1 < k → i + 1 < info.op :=
    fun k info hk hpk => hop ▸ op_lt_op hinc hnext hk hpk
  have hloop : getLineLoop lineinfos (i + 1) (lineinfos.length + 1) 0 (lineinfos.length - 1) 0 =
      halving (p + 1) (lineinfos.length + 1) 0 (lineinfos.length - 1) :=
    h.loop_eq_halving hnext hop hpast le_rfl (by omega) (by omega) (by omega)
      (by push_cast; omega)
  have hhalving : halving (p + 1) (lineinfos.length + 1) 0 (lineinfos.length - 1) =
        some ((p : ℤ) + 1 - 1) ∨
      halving (p + 1) (lineinfos.length + 1) 0 (lineinfos.length - 1) = some ((p : ℤ) + 1) :=
    halving_cases (by omega) (by omega) (by push_cast; omega)
  rw [h.findsLine_iff hprev, getLine, hloop]
  obtain hfirst | hfirst := hhalving
  · have hline : ((p : ℤ) + 1 - 1).toNat = p := by omega
    rw [hfirst, Option.bind_some, hline, hprev, Option.map_some]
    exact iff_of_true rfl (.inr fun heq => by
      have := Option.some.inj heq
      omega)
  · have hline : ((p : ℤ) + 1).toNat = p + 1 := by omega
    rw [hfirst, Option.bind_some, hline, hnext, Option.map_some, Option.some.injEq, eq_comm]
    exact (or_iff_left fun hne => hne rfl).symm

/-- `GetLine` finds the line unless the next instruction begins a line whose entry the search meets
before the entry in front of it. -/
theorem getLine_iff (hinc : lineinfos.Pairwise fun a b => a.op < b.op)
    (hentry : ∃ info ∈ lineinfos, info.op ≤ i) :
    FindsLine lineinfos i ↔ ∀ j, ¬ Overshoots lineinfos i j := by
  obtain ⟨p, h⟩ := exists_splitAt hinc hentry
  have hprev := List.getElem?_eq_getElem h.lt
  -- only the entry behind `p` can be for the next instruction
  have honly : ∀ j next, lineinfos[j + 1]? = some next → next.op = i + 1 → j = p := by
    intro j next hnext hop
    obtain hlt | heq | hgt := lt_trichotomy j p
    · have := h.upTo (j + 1) next hnext hlt
      omega
    · exact heq
    · have hlen : j + 1 < lineinfos.length := (List.getElem?_eq_some_iff.mp hnext).1
      have hmid := List.getElem?_eq_getElem (Nat.lt_of_succ_lt hlen)
      have hpast := h.past j _ hmid hgt
      have := op_lt_op hinc hmid hnext (Nat.lt_succ_self j)
      omega
  by_cases hnext : ∃ next, lineinfos[p + 1]? = some next ∧ next.op = i + 1
  · obtain ⟨next, hnext, hop⟩ := hnext
    rw [h.findsLine_iff_of_next hinc hprev hnext hop]
    constructor
    · rintro hgood j ⟨prev', next', hj, hj', hop', hne, hfirst⟩
      obtain rfl := honly j next' hj' hop'
      rw [hprev] at hj
      rw [hnext] at hj'
      cases hj
      cases hj'
      exact hgood.elim hne (absurd hfirst)
    · intro hno
      by_contra hbad
      obtain ⟨hne, hfirst⟩ := not_or.mp hbad
      exact hno p ⟨_, next, hprev, hnext, hop, hne, not_not.mp hfirst⟩
  · refine iff_of_true (h.findsLine_of_gap fun k info hk hpk => ?_) ?_
    · have hinfo := h.past k info hk hpk
      refine lt_of_le_of_ne hinfo fun heq => ?_
      obtain ⟨k, rfl⟩ : ∃ n, k = n + 1 := ⟨k - 1, by omega⟩
      obtain rfl := honly k info hk heq.symm
      exact hnext ⟨info, hk, heq.symm⟩
    · rintro j ⟨prev', next', -, hj', hop', -⟩
      obtain rfl := honly j next' hj' hop'
      exact hnext ⟨next', hj', hop'⟩

/-- Lines 1, 2 and 3 of one instruction each -/
def threeLines : List SQLineInfo := [⟨1, 0⟩, ⟨2, 1⟩, ⟨3, 2⟩]

/-- For the last instruction the line is found. -/
theorem getLine_threeLines : FindsLine threeLines 2 := by
  refine (getLine_iff (by decide) (by decide)).mpr ?_
  rintro j ⟨prev, next, -, hnext, hop, -⟩
  have hmem := List.mem_of_getElem? hnext
  simp only [threeLines, List.mem_cons, List.not_mem_nil, or_false] at hmem
  obtain rfl | rfl | rfl := hmem <;> cases hop

/-- For the first instruction the search begins at the second entry and stays there. -/
theorem getLine_first_overshoots :
    ¬ ∀ (lineinfos : List SQLineInfo) (i : ℤ), lineinfos.Pairwise (fun a b => a.op < b.op) →
      (∃ info ∈ lineinfos, info.op ≤ i) → FindsLine lineinfos i := by
  intro hall
  obtain ⟨info, hinfo, hline⟩ := hall threeLines 0 (by decide) (by decide)
  have hentry : entryOf threeLines 0 = some ⟨1, 0⟩ := by decide
  have hget : getLine threeLines (0 + 1) = some 2 := by decide
  rw [hentry] at hinfo
  cases hinfo
  rw [hget] at hline
  cases hline

end SQFunctionProto
end Squirt
