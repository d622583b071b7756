import Mathlib.Data.List.Nodup
import Mathlib.Algebra.Order.Group.Nat
import Squirt.OpenOuters
import Squirt.Simulations

/-!
# Captured variables are shared

Registers and outers are the variables that a program means: two captures of one variable are the
same outer, and what is written through a register or an outer is read through both.
-/

namespace Squirt.Outers

open Simulations GuardedRuns

variable {V : Type} {null v : V} {vm vm' : SQVM V} {a : Variables V} {l : List ℕ} {i k p q : ℕ}

namespace SQVM

/-! ## The loops -/

/-- The outers of a list point into the stack, at the places `pos`, and these descend. -/
structure Points (vm : SQVM V) (pos : ℕ → ℕ) (l : List ℕ) : Prop where
  position : ∀ p ∈ l, vm.position p = some (pos p)
  descending : l.Pairwise fun p q => pos q < pos p

theorem Points.tail {pos : ℕ → ℕ} (h : vm.Points pos (p :: l)) : vm.Points pos l :=
  ⟨fun q hq => h.position q (List.mem_cons_of_mem _ hq), (List.pairwise_cons.mp h.descending).2⟩

private theorem Points.notMem {pos : ℕ → ℕ} (h : vm.Points pos (p :: l)) : p ∉ l := fun hmem =>
  lt_irrefl _ ((List.pairwise_cons.mp h.descending).1 p hmem)

/-- `FindOuter` finds the outer of the place, or puts a new one where it belongs. -/
theorem findLoop_spec {pos : ℕ → ℕ} (h : vm.Points pos l) (hnew : pos vm.outers.length = i) :
    (∃ p ∈ l, pos p = i ∧ vm.findLoop i l = some (p, l)) ∨
      (∀ p ∈ l, pos p ≠ i) ∧ ∃ l', vm.findLoop i l = some (vm.outers.length, l') ∧
        (∀ q, q ∈ l' ↔ q = vm.outers.length ∨ q ∈ l) ∧ l'.Pairwise fun p q => pos q < pos p := by
  induction l with
  | nil => exact .inr ⟨by simp, [vm.outers.length], rfl, by simp, List.pairwise_singleton _ _⟩
  | cons p l ih =>
    have hp := h.position p List.mem_cons_self
    have hbelow := (List.pairwise_cons.mp h.descending).1
    rw [findLoop, hp, Option.bind_some]
    by_cases heq : pos p = i
    · rw [if_pos heq.ge, if_pos heq]
      exact .inl ⟨p, List.mem_cons_self, heq, rfl⟩
    by_cases hge : pos p ≥ i
    · rw [if_pos hge, if_neg heq]
      cases ih h.tail with
      | inl hfound =>
        obtain ⟨q, hq, hpos, hrun⟩ := hfound
        rw [hrun]
        exact .inl ⟨q, List.mem_cons_of_mem _ hq, hpos, rfl⟩
      | inr hnone =>
        obtain ⟨hne, l', hrun, hmem, hdesc⟩ := hnone
        rw [hrun]
        refine .inr ⟨List.forall_mem_cons.mpr ⟨heq, hne⟩, p :: l', rfl, fun q => ?_, ?_⟩
        · rw [List.mem_cons, hmem, List.mem_cons]
          tauto
        · rw [List.pairwise_cons]
          refine ⟨fun q hq => ?_, hdesc⟩
          cases (hmem q).mp hq with
          | inl hq =>
            rw [hq, hnew]
            omega
          | inr hq => exact hbelow q hq
    · rw [if_neg hge]
      have hless : ∀ q ∈ p :: l, pos q < i := by
        rw [List.forall_mem_cons]
        exact ⟨not_le.mp hge, fun q hq => (hbelow q hq).trans (not_le.mp hge)⟩
      refine .inr ⟨fun q hq => (hless q hq).ne, _, rfl, fun q => List.mem_cons, ?_⟩
      rw [List.pairwise_cons, hnew]
      exact ⟨hless, h.descending⟩

/-- `CloseOuters` gives the outers from the place on their values. -/
structure Closes (vm vm' : SQVM V) (pos : ℕ → ℕ) (i : ℕ) (l : List ℕ) : Prop where
  block : vm'.block = vm.block
  stack : vm'.stack = vm.stack
  length : vm'.outers.length = vm.outers.length
  sublist : vm'.openouters.Sublist l
  mem_iff : ∀ q, q ∈ vm'.openouters ↔ q ∈ l ∧ pos q < i
  closed : ∀ q ∈ l, i ≤ pos q → ∃ otr, vm'.outers[q]? = some otr ∧ otr.valptr = .value ∧
    vm.stack[pos q]? = some otr.value
  others : ∀ q, q ∉ l ∨ pos q < i → vm'.outers[q]? = vm.outers[q]?

private theorem closeLoop_spec {pos : ℕ → ℕ} (h : vm.Points pos l)
    (hin : ∀ p ∈ l, pos p < vm.stack.length) :
    ∃ vm', closeLoop i l vm = some vm' ∧ Closes vm vm' pos i l := by
  induction l generalizing vm with
  | nil => exact ⟨_, rfl, rfl, rfl, rfl, List.Sublist.refl _, by simp, by simp, by simp⟩
  | cons p l ih =>
    have hp := h.position p List.mem_cons_self
    have hnot := h.notMem
    have hbelow := (List.pairwise_cons.mp h.descending).1
    rw [closeLoop, hp, Option.bind_some]
    by_cases hge : pos p ≥ i
    · rw [if_pos hge]
      obtain ⟨v, hvalue⟩ : ∃ v, vm.stack[pos p]? = some v :=
        ⟨_, List.getElem?_eq_getElem (hin p List.mem_cons_self)⟩
      obtain ⟨otr, hotr, -⟩ := Option.bind_eq_some_iff.mp hp
      rw [closeOuter, hvalue, Option.map_some, Option.bind_some]
      have hothers : ∀ f q, q ≠ p → (vm.outers.modify p f)[q]? = vm.outers[q]? := fun f q hq =>
        List.getElem?_modify_ne f _ (Ne.symm hq)
      have hne : ∀ q ∈ l, q ≠ p := fun q hq => ne_of_mem_of_not_mem hq hnot
      generalize hf : (fun otr : SQOuter V => { otr with value := v, valptr := .value }) = f
      have hpoints : SQVM.Points { vm with outers := vm.outers.modify p f } pos l := by
        refine ⟨fun q hq => (h.tail.position q hq).symm.trans ?_ |>.symm, h.tail.descending⟩
        rw [position, position]
        dsimp only
        rw [hothers f q (hne q hq)]
        rfl
      obtain ⟨vm', hrun, hcloses⟩ := ih hpoints fun q hq => hin q (List.mem_cons_of_mem _ hq)
      refine ⟨vm', hrun, hcloses.block, hcloses.stack,
        hcloses.length.trans (List.length_modify ..), hcloses.sublist.cons p, fun q => ?_,
        fun q hq hle => ?_, fun q hq => ?_⟩
      · rw [hcloses.mem_iff, List.mem_cons]
        constructor
        · exact fun hq => ⟨.inr hq.1, hq.2⟩
        · rintro ⟨rfl | hq, hlt⟩
          · exact absurd hlt (not_lt.mpr hge)
          · exact ⟨hq, hlt⟩
      · cases hq with
        | head =>
          refine ⟨f otr, ?_, ?_, ?_⟩
          · rw [hcloses.others p (.inl hnot)]
            dsimp only
            rw [List.getElem?_modify_eq, hotr]
            rfl
          · rw [← hf]
          · rw [← hf, hvalue]
        | tail _ hq => exact hcloses.closed q hq hle
      · have hqp : q ≠ p := by
          rintro rfl
          cases hq with
          | inl hq => exact hq List.mem_cons_self
          | inr hq => exact absurd hq (not_lt.mpr hge)
        rw [hcloses.others q (hq.imp_left fun hq hmem => hq (List.mem_cons_of_mem _ hmem))]
        exact hothers f q hqp
    · rw [if_neg hge]
      have hless : ∀ q ∈ p :: l, pos q < i := by
        rw [List.forall_mem_cons]
        exact ⟨not_le.mp hge, fun q hq => (hbelow q hq).trans (not_le.mp hge)⟩
      refine ⟨_, rfl, rfl, rfl, rfl, List.Sublist.refl _, fun q => ?_, fun q hq hle => ?_,
        fun q _ => rfl⟩
      · exact ⟨fun hq => ⟨hq, hless q hq⟩, fun hq => hq.1⟩
      · exact absurd (hless q hq) (not_lt.mpr hle)

/-- `RelocateOuters` lets the open outers point into the block of the stack. -/
theorem relocateOuters_spec (vm : SQVM V) (q : ℕ) :
    vm.relocateOuters.outers[q]? = (vm.outers[q]?).map fun otr =>
      if q ∈ vm.openouters then { otr with valptr := .stack vm.block otr.idx } else otr := by
  have hloop : ∀ (l : List ℕ) (outers : List (SQOuter V)),
      (l.foldl (fun outers p => outers.modify p fun otr =>
        { otr with valptr := .stack vm.block otr.idx }) outers)[q]? = (outers[q]?).map fun otr =>
          if q ∈ l then { otr with valptr := .stack vm.block otr.idx } else otr := by
    intro l
    induction l with
    | nil => simp
    | cons p l ih =>
      intro outers
      rw [List.foldl_cons, ih, List.getElem?_modify]
      cases outers[q]? with
      | none => rfl
      | some otr => by_cases hpq : p = q <;> by_cases hq : q ∈ l <;> simp [hpq, hq, Ne.symm]
  exact hloop vm.openouters vm.outers

private theorem relocateOuters_length (vm : SQVM V) :
    vm.relocateOuters.outers.length = vm.outers.length := by
  have hloop : ∀ (l : List ℕ) (outers : List (SQOuter V)),
      (l.foldl (fun outers p => outers.modify p fun otr =>
        { otr with valptr := .stack vm.block otr.idx }) outers).length = outers.length := by
    intro l
    induction l with
    | nil => simp
    | cons p l ih =>
      intro outers
      rw [List.foldl_cons, ih, List.length_modify]
  exact hloop vm.openouters vm.outers

end SQVM

/-! ## The variables of a state -/

/-- The register of a captured variable -/
def Variables.register (a : Variables V) (p : ℕ) : ℕ := (a.captured.getD p (0, 0)).1

theorem register_eq {x : ℕ × ℕ} (hp : a.captured[p]? = some x) : a.register p = x.1 := by
  rw [Variables.register, List.getD_eq_getElem?_getD, hp]
  rfl

/-- The registers and outers are those of the variables: an open outer is a variable that lives, and
a closed one has the value of one that does not. -/
structure Represents (vm : SQVM V) (a : Variables V) : Prop where
  size : vm.stack.length = a.size
  stack : ∀ i < a.size, vm.stack[i]? = some (a.value i (a.life i))
  length : vm.outers.length = a.captured.length
  nodup : a.captured.Nodup
  descending : vm.openouters.Pairwise fun p q => a.register q < a.register p
  isOpen : ∀ p ∈ vm.openouters, ∃ i otr, i < a.size ∧ a.captured[p]? = some (i, a.life i) ∧
    vm.outers[p]? = some otr ∧ otr.valptr = .stack vm.block i ∧ otr.idx = i
  isClosed : ∀ p i k, p ∉ vm.openouters → a.captured[p]? = some (i, k) →
    i < a.size ∧ k < a.life i ∧ ∃ otr, vm.outers[p]? = some otr ∧ otr.valptr = .value ∧
      otr.value = a.value i k

private theorem represents_init (null : V) (block size : ℕ) :
    Represents (.init null block size) (.init null size) := by
  refine ⟨List.length_replicate, fun i hi => ?_, rfl, List.nodup_nil, .nil, by simp [SQVM.init],
    by simp [Variables.init]⟩
  exact List.getElem?_replicate_of_lt hi

namespace Represents

variable (h : Represents vm a)
include h

theorem points : vm.Points a.register vm.openouters := by
  refine ⟨fun p hp => ?_, h.descending⟩
  obtain ⟨i, otr, -, hcaptured, hotr, hvalptr, -⟩ := h.isOpen p hp
  rw [SQVM.position, hotr, Option.bind_some, hvalptr, SQVM.offset, if_pos rfl, register_eq hcaptured]

/-- An outer is open with a variable that lives, or closed with one that does not. -/
theorem cases_captured {x : ℕ × ℕ} (hp : a.captured[p]? = some x) :
    ∃ otr, vm.outers[p]? = some otr ∧ x.1 < a.size ∧
      (p ∈ vm.openouters ∧ x.2 = a.life x.1 ∧ otr.valptr = .stack vm.block x.1 ∧ otr.idx = x.1 ∨
        p ∉ vm.openouters ∧ x.2 < a.life x.1 ∧ otr.valptr = .value ∧ otr.value = a.value x.1 x.2) := by
  by_cases hopen : p ∈ vm.openouters
  · obtain ⟨i, otr, hi, hcaptured, hotr, hvalptr, hidx⟩ := h.isOpen p hopen
    obtain rfl := Option.some.inj (hcaptured.symm.trans hp)
    exact ⟨otr, hotr, hi, .inl ⟨hopen, rfl, hvalptr, hidx⟩⟩
  · obtain ⟨hi, hk, otr, hotr, hvalptr, hvalue⟩ := h.isClosed p x.1 x.2 hopen hp
    exact ⟨otr, hotr, hi, .inr ⟨hopen, hk, hvalptr, hvalue⟩⟩

theorem outers_eq_none (hp : a.captured[p]? = none) : vm.outers[p]? = none := by
  rw [List.getElem?_eq_none_iff] at hp ⊢
  rwa [h.length]

/-- What an outer points at is the value of its variable. -/
theorem deref_eq (p : ℕ) : vm.deref p = (a.captured[p]?).map fun x => a.value x.1 x.2 := by
  cases hp : a.captured[p]? with
  | none =>
    rw [SQVM.deref, h.outers_eq_none hp]
    rfl
  | some x =>
    obtain ⟨otr, hotr, hi, hcases⟩ := h.cases_captured hp
    rw [SQVM.deref, hotr, Option.bind_some]
    cases hcases with
    | inl hopen =>
      obtain ⟨-, hlife, hvalptr, -⟩ := hopen
      rw [hvalptr, Option.map_some, hlife]
      dsimp only
      rw [SQVM.offset, if_pos rfl, Option.bind_some, h.stack _ hi]
    | inr hclosed =>
      obtain ⟨-, -, hvalptr, hvalue⟩ := hclosed
      rw [hvalptr, Option.map_some, ← hvalue]

/-- A register is written. -/
theorem set (hi : i < a.size) (v : V) :
    Represents { vm with stack := vm.stack.set i v } (a.set i (a.life i) v) := by
  have hvalue : ∀ j k, ¬(j = i ∧ k = a.life i) → (a.set i (a.life i) v).value j k = a.value j k := by
    exact fun j k hne => if_neg hne
  refine ⟨(List.length_set ..).trans h.size, fun j hj => ?_, h.length, h.nodup, h.descending,
    h.isOpen, fun p j k hp hcaptured => ?_⟩
  · by_cases hji : j = i
    · subst hji
      dsimp only
      rw [List.getElem?_set_self (h.size ▸ hj)]
      simp [Variables.set]
    · dsimp only
      rw [List.getElem?_set_ne (Ne.symm hji)]
      refine (h.stack j hj).trans ?_
      rw [hvalue j _ fun heq => hji heq.1]
      rfl
  · obtain ⟨hj, hk, otr, hotr, hvalptr, hold⟩ := h.isClosed p j k hp hcaptured
    refine ⟨hj, hk, otr, hotr, hvalptr, hold.trans (hvalue j k ?_).symm⟩
    rintro ⟨rfl, rfl⟩
    exact lt_irrefl _ hk

/-- A captured variable is written. -/
theorem assign {x : ℕ × ℕ} (hp : a.captured[p]? = some x) (v : V) :
    ∃ vm', vm.assign p v = some vm' ∧ Represents vm' (a.set x.1 x.2 v) := by
  obtain ⟨otr, hotr, hi, hcases⟩ := h.cases_captured hp
  rw [SQVM.assign, hotr, Option.bind_some]
  cases hcases with
  | inl hopen =>
    obtain ⟨-, hlife, hvalptr, -⟩ := hopen
    rw [hvalptr, hlife]
    dsimp only
    rw [SQVM.offset, if_pos rfl, Option.bind_some, if_pos (h.size ▸ hi)]
    exact ⟨_, rfl, h.set hi v⟩
  | inr hclosed =>
    obtain ⟨hclosed, hk, hvalptr, hvalue⟩ := hclosed
    rw [hvalptr]
    refine ⟨_, rfl, h.size, fun j hj => ?_, (List.length_modify ..).trans h.length, h.nodup,
      h.descending, fun q hq => ?_, fun q j l hq hcaptured => ?_⟩
    · refine (h.stack j hj).trans (congrArg some (if_neg ?_).symm)
      rintro ⟨rfl, heq⟩
      exact hk.ne' heq
    · have hpq : p ≠ q := by
        rintro rfl
        exact hclosed hq
      obtain ⟨j, otr', hj, hcaptured, hotr', hplace⟩ := h.isOpen q hq
      exact ⟨j, otr', hj, hcaptured, (List.getElem?_modify_ne _ _ hpq).trans hotr', hplace⟩
    · obtain ⟨hj, hl, otr', hotr', hvalptr', hvalue'⟩ := h.isClosed q j l hq hcaptured
      refine ⟨hj, hl, ?_⟩
      by_cases hpq : p = q
      · subst hpq
        obtain rfl := Option.some.inj (hp.symm.trans hcaptured)
        refine ⟨{ otr' with value := v }, ?_, hvalptr', (if_pos ⟨rfl, rfl⟩).symm⟩
        dsimp only
        rw [List.getElem?_modify_eq, hotr']
        rfl
      · refine ⟨otr', (List.getElem?_modify_ne _ _ hpq).trans hotr', hvalptr', ?_⟩
        refine hvalue'.trans (if_neg ?_).symm
        intro heq
        have hsame : x = (j, l) := Prod.ext heq.1.symm heq.2.symm
        have hlt := (List.getElem?_eq_some_iff.mp hp).1
        exact hpq ((List.getElem?_inj hlt h.nodup).mp (hp.trans (hsame ▸ hcaptured.symm)))

/-- Variables end, and the outers take their values along. -/
theorem close (i : ℕ) : ∃ vm', vm.closeOuters i = some vm' ∧ Represents vm' (a.close i) := by
  have hin : ∀ p ∈ vm.openouters, a.register p < vm.stack.length := by
    intro p hp
    obtain ⟨j, otr, hj, hcaptured, -⟩ := h.isOpen p hp
    rw [register_eq hcaptured, h.size]
    exact hj
  obtain ⟨vm', hrun, hcloses⟩ := SQVM.closeLoop_spec (i := i) h.points hin
  have hlife : ∀ j, a.life j ≤ (a.close i).life j := by
    intro j
    rw [Variables.close]
    dsimp only
    split <;> omega
  have hvalue : ∀ j k, k ≤ a.life j → (a.close i).value j k = a.value j k := by
    intro j k hk
    refine if_neg ?_
    rintro ⟨-, -, rfl⟩
    omega
  refine ⟨vm', hrun, (congrArg _ hcloses.stack).trans h.size, fun j hj => ?_,
    hcloses.length.trans h.length, h.nodup, h.descending.sublist hcloses.sublist, fun p hp => ?_,
    fun p j k hp hcaptured => ?_⟩
  · rw [hcloses.stack, h.stack j hj]
    by_cases hij : i ≤ j ∧ j < a.size
    · simp [Variables.close, hij]
    · simp [Variables.close, hij]
  · obtain ⟨hp, hlt⟩ := (hcloses.mem_iff p).mp hp
    obtain ⟨j, otr, hj, hcaptured, hotr, hvalptr, hidx⟩ := h.isOpen p hp
    rw [register_eq hcaptured] at hlt
    have hsame : (a.close i).life j = a.life j := if_neg fun hij => absurd hlt (not_lt.mpr hij.1)
    refine ⟨j, otr, hj, hcaptured.trans (by rw [hsame]), ?_, ?_, hidx⟩
    · rw [hcloses.others p (.inr (register_eq hcaptured ▸ hlt)), hotr]
    · rw [hvalptr, hcloses.block]
  · have hcaptured : a.captured[p]? = some (j, k) := hcaptured
    obtain ⟨otr, hotr, hj, hcases⟩ := h.cases_captured hcaptured
    refine ⟨hj, ?_⟩
    cases hcases with
    | inl hopen =>
      obtain ⟨hopen, hk, -⟩ := hopen
      obtain rfl : k = a.life j := hk
      have hge : i ≤ j := by
        by_contra hlt
        exact hp ((hcloses.mem_iff p).mpr ⟨hopen, register_eq hcaptured ▸ not_le.mp hlt⟩)
      have hnext : (a.close i).life j = a.life j + 1 := if_pos ⟨hge, hj⟩
      obtain ⟨otr', hotr', hvalptr, hstack⟩ :=
        hcloses.closed p hopen (register_eq hcaptured ▸ hge)
      rw [register_eq hcaptured, h.stack j hj] at hstack
      refine ⟨by omega, otr', hotr', hvalptr, ?_⟩
      rw [hvalue j _ le_rfl]
      exact (Option.some.inj hstack).symm
    | inr hclosed =>
      obtain ⟨hclosed, hk, hvalptr, hold⟩ := hclosed
      refine ⟨hk.trans_le (hlife j), otr, ?_, hvalptr, ?_⟩
      · rw [hcloses.others p (.inl hclosed), hotr]
      · rw [hvalue j k hk.le]
        exact hold

/-- The stack grows, and the open outers point into it wherever it is. -/
theorem grow (null : V) {block n : ℕ} {outers : List (SQOuter V)}
    (hlength : outers.length = vm.outers.length)
    (hopen : ∀ p ∈ vm.openouters, ∀ otr, vm.outers[p]? = some otr →
      outers[p]? = some { otr with valptr := .stack block otr.idx })
    (hclosed : ∀ p, p ∉ vm.openouters → outers[p]? = vm.outers[p]?) :
    Represents ⟨block, vm.stack ++ List.replicate n null, outers, vm.openouters⟩
      (a.grow null n) := by
  have hvalue : ∀ j k, j < a.size → (a.grow null n).value j k = a.value j k := fun j k hj =>
    if_neg (not_le.mpr hj)
  refine ⟨?_, fun j hj => ?_, hlength.trans h.length, h.nodup, h.descending, fun p hp => ?_,
    fun p j k hp hcaptured => ?_⟩
  · rw [List.length_append, List.length_replicate, h.size]
    rfl
  · by_cases hold : j < a.size
    · rw [hvalue j _ hold]
      refine (List.getElem?_append_left ?_).trans (h.stack j hold)
      rwa [h.size]
    · have hlt : j < a.size + n := hj
      have hnew : (a.grow null n).value j ((a.grow null n).life j) = null :=
        if_pos (not_lt.mp hold)
      dsimp only
      rw [List.getElem?_append_right (by rw [h.size]; omega),
        List.getElem?_replicate_of_lt (by rw [h.size]; omega), hnew]
  · obtain ⟨j, otr, hj, hcaptured, hotr, hvalptr, hidx⟩ := h.isOpen p hp
    exact ⟨j, _, hj.trans_le (Nat.le_add_right ..), hcaptured, hopen p hp otr hotr,
      congrArg _ hidx, hidx⟩
  · obtain ⟨hj, hk, otr, hotr, hvalptr, hold⟩ := h.isClosed p j k hp hcaptured
    exact ⟨hj.trans_le (Nat.le_add_right ..), hk, otr, (hclosed p hp).trans hotr, hvalptr,
      hold.trans (hvalue j k hj).symm⟩

/-- A variable that is captured has its outer in the list. -/
theorem mem_captured_iff (hi : i < a.size) :
    (i, a.life i) ∈ a.captured ↔ ∃ p ∈ vm.openouters, a.register p = i := by
  constructor
  · intro hmem
    obtain ⟨p, hp⟩ := List.mem_iff_getElem?.mp hmem
    obtain ⟨otr, hotr, -, hcases⟩ := h.cases_captured hp
    cases hcases with
    | inl hopen => exact ⟨p, hopen.1, register_eq hp⟩
    | inr hclosed => exact absurd hclosed.2.1 (lt_irrefl _)
  · rintro ⟨p, hp, rfl⟩
    obtain ⟨j, otr, hj, hcaptured, -⟩ := h.isOpen p hp
    rw [register_eq hcaptured]
    exact List.mem_of_getElem? hcaptured

omit h in
private theorem register_new (a : Variables V) (x : ℕ × ℕ) (p : ℕ) :
    Variables.register { a with captured := a.captured ++ [x] } p =
      if p < a.captured.length then a.register p else if p = a.captured.length then x.1 else 0 := by
  rw [Variables.register, Variables.register, List.getD_eq_getElem?_getD, List.getD_eq_getElem?_getD,
    List.getElem?_append]
  split_ifs with hlt heq
  · rfl
  · simp [heq]
  · have hnil : [x][p - a.captured.length]? = none := by
      rw [List.getElem?_eq_none_iff, List.length_singleton]
      omega
    rw [hnil]
    rfl

theorem lt_of_open (hp : p ∈ vm.openouters) : p < a.captured.length := by
  obtain ⟨j, otr, -, hcaptured, -⟩ := h.isOpen p hp
  exact (List.getElem?_eq_some_iff.mp hcaptured).1

/-- The loop of `FindOuter` finds the outer of the variable if it is captured. -/
theorem findLoop (i : ℕ) : (∃ p ∈ vm.openouters, a.register p = i ∧
      vm.findLoop i vm.openouters = some (p, vm.openouters)) ∨
    (∀ p ∈ vm.openouters, a.register p ≠ i) ∧ ∃ l', vm.findLoop i vm.openouters =
        some (vm.outers.length, l') ∧ (∀ q, q ∈ l' ↔ q = vm.outers.length ∨ q ∈ vm.openouters) ∧
      l'.Pairwise fun p q =>
        Variables.register { a with captured := a.captured ++ [(i, a.life i)] } q <
          Variables.register { a with captured := a.captured ++ [(i, a.life i)] } p := by
  have hregister : ∀ p ∈ vm.openouters,
      Variables.register { a with captured := a.captured ++ [(i, a.life i)] } p = a.register p := by
    intro p hp
    rw [register_new, if_pos (h.lt_of_open hp)]
  have hpoints : vm.Points
      (Variables.register { a with captured := a.captured ++ [(i, a.life i)] }) vm.openouters := by
    refine ⟨fun p hp => (h.points.position p hp).trans (by rw [hregister p hp]), ?_⟩
    refine h.descending.imp_of_mem fun {p q} hp hq hlt => ?_
    rwa [hregister p hp, hregister q hq]
  have hnew : Variables.register { a with captured := a.captured ++ [(i, a.life i)] }
      vm.outers.length = i := by
    rw [register_new, h.length, if_neg (lt_irrefl _), if_pos rfl]
  cases SQVM.findLoop_spec hpoints hnew with
  | inl hfound =>
    obtain ⟨p, hp, hpos, hrun⟩ := hfound
    exact .inl ⟨p, hp, (hregister p hp).symm.trans hpos, hrun⟩
  | inr hnone =>
    obtain ⟨hne, hlist⟩ := hnone
    exact .inr ⟨fun p hp heq => hne p hp ((hregister p hp).trans heq), hlist⟩

/-- A variable is captured again. -/
theorem capture_again (null : V) (hi : i < a.size) (hmem : (i, a.life i) ∈ a.captured) :
    vm.findOuter null i = some (vm, a.captured.idxOf (i, a.life i)) := by
  cases h.findLoop i with
  | inl hfound =>
    obtain ⟨p, hp, hpos, hrun⟩ := hfound
    obtain ⟨j, otr, -, hcaptured, -⟩ := h.isOpen p hp
    obtain rfl : j = i := (register_eq hcaptured).symm.trans hpos
    obtain ⟨hlt, hget⟩ := List.getElem?_eq_some_iff.mp hcaptured
    have hidx : a.captured.idxOf (j, a.life j) = p := by
      rw [← hget]
      exact h.nodup.idxOf_getElem p hlt
    rw [SQVM.findOuter, hrun, hidx, Option.map_some]
    exact congrArg some (if_pos (h.length ▸ hlt))
  | inr hnone =>
    obtain ⟨p, hp, heq⟩ := (h.mem_captured_iff hi).mp hmem
    exact absurd heq (hnone.1 p hp)

/-- A variable is captured for the first time. -/
theorem capture_new (null : V) (hi : i < a.size) (hnew : (i, a.life i) ∉ a.captured) :
    ∃ vm', vm.findOuter null i = some (vm', a.captured.length) ∧
      Represents vm' { a with captured := a.captured ++ [(i, a.life i)] } := by
  cases h.findLoop i with
  | inl hfound =>
    obtain ⟨p, hp, hpos, -⟩ := hfound
    exact absurd ((h.mem_captured_iff hi).mpr ⟨p, hp, hpos⟩) hnew
  | inr hnone =>
    obtain ⟨-, l', hrun, hmem, hdesc⟩ := hnone
    rw [SQVM.findOuter, hrun, Option.map_some, ← h.length]
    dsimp only
    rw [if_neg (lt_irrefl _)]
    refine ⟨_, rfl, h.size, h.stack, ?_, ?_, hdesc, fun p hp => ?_, fun p j k hp hcaptured => ?_⟩
    · simp [h.length]
    · rw [List.nodup_append]
      exact ⟨h.nodup, List.nodup_singleton _, fun x hx y hy heq => by simp_all⟩
    · cases (hmem p).mp hp with
      | inl hp =>
        subst hp
        refine ⟨i, ⟨.stack vm.block i, i, null⟩, hi, ?_, ?_, rfl, rfl⟩
        · dsimp only
          rw [h.length, List.getElem?_concat_length]
        · exact List.getElem?_concat_length
      | inr hp =>
        obtain ⟨j, otr, hj, hcaptured, hotr, hplace⟩ := h.isOpen p hp
        have hlt := h.lt_of_open hp
        exact ⟨j, otr, hj, (List.getElem?_append_left hlt).trans hcaptured,
          (List.getElem?_append_left (h.length ▸ hlt)).trans hotr, hplace⟩
    · rw [hmem, not_or] at hp
      have hlt : p < a.captured.length := by
        have hle := (List.getElem?_eq_some_iff.mp hcaptured).1
        rw [List.length_append, List.length_singleton] at hle
        have hne := hp.1
        rw [h.length] at hne
        omega
      obtain ⟨hj, hk, otr, hotr, hplace⟩ :=
        h.isClosed p j k hp.2 ((List.getElem?_append_left hlt).symm.trans hcaptured)
      exact ⟨hj, hk, otr, (List.getElem?_append_left (h.length ▸ hlt)).trans hotr, hplace⟩

end Represents

/-- `sq_reservestack` does not move the stack while outers are open. -/
def KeepsBlock (vm : SQVM V) (op : Op V) : Prop :=
  ∀ block n, op = .reserve block n → block = vm.block ∨ vm.openouters = []

/-- A step that does not move the stack away from open outers is one of the variables. -/
theorem Represents.step (h : Represents vm a) (null : V) (op : Op V) (hkeeps : KeepsBlock vm op) :
    Agree Represents (vm.step null op) (a.step null op) := by
  cases op with
  | get i =>
    by_cases hi : i < a.size
    · rw [SQVM.step, h.stack i hi, Variables.step, if_pos hi]
      exact ⟨h, rfl⟩
    · rw [SQVM.step, List.getElem?_eq_none (h.size ▸ not_lt.mp hi), Variables.step, if_neg hi]
      trivial
  | set i v =>
    rw [SQVM.step, Variables.step, h.size]
    by_cases hi : i < a.size
    · rw [if_pos hi, if_pos hi]
      exact ⟨h.set hi v, rfl⟩
    · rw [if_neg hi, if_neg hi]
      trivial
  | capture i =>
    rw [SQVM.step, Variables.step, h.size]
    by_cases hi : i < a.size
    · rw [if_pos hi, if_pos hi]
      by_cases hmem : (i, a.life i) ∈ a.captured
      · rw [if_pos hmem, h.capture_again null hi hmem]
        exact ⟨h, rfl⟩
      · obtain ⟨vm', hrun, hrep⟩ := h.capture_new null hi hmem
        rw [if_neg hmem, hrun]
        exact ⟨hrep, rfl⟩
    · rw [if_neg hi, if_neg hi]
      trivial
  | getOuter p =>
    rw [SQVM.step, Variables.step, h.deref_eq]
    cases a.captured[p]? with
    | none => trivial
    | some x => exact ⟨h, rfl⟩
  | setOuter p v =>
    rw [SQVM.step, Variables.step]
    cases hp : a.captured[p]? with
    | none =>
      rw [SQVM.assign, h.outers_eq_none hp]
      trivial
    | some x =>
      obtain ⟨vm', hrun, hrep⟩ := h.assign hp v
      rw [hrun]
      exact ⟨hrep, rfl⟩
  | close i =>
    obtain ⟨vm', hrun, hrep⟩ := h.close i
    rw [SQVM.step, Variables.step, hrun]
    exact ⟨hrep, rfl⟩
  | grow block n =>
    rw [SQVM.step, Variables.step]
    refine ⟨h.grow null ?_ (fun p hp otr hotr => ?_) fun p hp => ?_, rfl⟩
    · exact (vm.resize null block n).relocateOuters_length
    · refine ((vm.resize null block n).relocateOuters_spec p).trans ?_
      have hresize : (vm.resize null block n).outers[p]? = some otr := hotr
      rw [hresize, Option.map_some, if_pos (show p ∈ (vm.resize null block n).openouters from hp)]
    · refine ((vm.resize null block n).relocateOuters_spec p).trans ?_
      have hnot : p ∉ (vm.resize null block n).openouters := hp
      simp only [hnot, if_false, Option.map_id_fun', id_eq]
      rfl
  | reserve block n =>
    rw [SQVM.step, Variables.step]
    refine ⟨h.grow null rfl (fun p hp otr hotr => ?_) fun p hp => rfl, rfl⟩
    obtain ⟨j, otr', -, -, hotr', hvalptr, hidx⟩ := h.isOpen p hp
    obtain rfl := Option.some.inj (hotr'.symm.trans hotr)
    cases hkeeps block n rfl with
    | inl hblock =>
      subst hblock
      rw [hotr, hidx, ← hvalptr, ← hidx]
    | inr hnone =>
      rw [hnone] at hp
      cases hp

/-- What a program sees of captured variables is what it is to see, as long as `sq_reservestack` does
not move the stack while outers are open. -/
theorem captured_variables_shared (null : V) (block size : ℕ) {ops : List (Op V)}
    (hkeeps : Guarded (silent (SQVM.step null)) KeepsBlock (.init null block size) ops) :
    outputs (SQVM.step null) (.init null block size) ops =
      outputs (Variables.step null) (.init null size) ops :=
  outputs_eq (fun _ _ op h hkeeps => h.step null op hkeeps) (represents_init null block size) hkeeps

/-- Two closures capture register 1 and one writes it; the stack grows and moves, the register is
read, the variable ends and its register is written again. -/
def twoClosures : List (Op ℕ) :=
  [.set 1 10, .capture 1, .capture 1, .setOuter 0 20, .grow 7 3, .get 1, .close 1, .set 1 30,
    .capture 1, .getOuter 0, .getOuter 1]

theorem captured_variables_shared_twoClosures :
    outputs (SQVM.step 0) (.init 0 5 2) twoClosures =
        outputs (Variables.step 0) (.init 0 2) twoClosures ∧
      outputs (Variables.step 0) (.init 0 2) twoClosures = some [.nothing, .outer 0, .outer 0,
        .nothing, .nothing, .value 20, .nothing, .nothing, .outer 1, .value 20, .value 30] := by
  refine ⟨captured_variables_shared 0 5 2 (guarded_of_mem (fun vm op hop => ?_) _), rfl⟩
  rintro block n rfl
  simp [twoClosures] at hop

end Squirt.Outers
