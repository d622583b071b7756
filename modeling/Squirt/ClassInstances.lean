import Squirt.ClassInvariant

/-!
# The instances of classes

The layout invariant of all classes and instances that the operations lead to.
-/

namespace Squirt

open SQTable (FinMap)

variable {Key Val : Type*} [DecidableEq Key] {objects : ClassObjects Key Val} {n : ℕ}

namespace ClassHeap

open SQClass

variable {s s' : ClassHeap Key Val}

/-- The class of an instance is locked and has as many default values as it has values. -/
def Fits (classes : List (SQClass Key Val)) (i : SQInstance Val) : Prop :=
  ∃ c, classes[i.cls]? = some c ∧ c.locked = true ∧ i.values.length = c.defaultvalues.length

structure Invariant (s : ClassHeap Key Val) : Prop where
  layout : ∀ c ∈ s.classes, c.size < 2 ^ 24 → Layout c
  bases : BasesFirst s.classes
  locked : LockedDown s.classes none
  instances : ∀ i ∈ s.instances, Fits s.classes i

theorem Invariant.empty : Invariant (⟨[], []⟩ : ClassHeap Key Val) where
  layout _ hc := absurd hc List.not_mem_nil
  bases _ _ _ hc := by cases hc
  locked _ _ _ _ hc := by cases hc
  instances _ hi := absurd hi List.not_mem_nil

private theorem create_none_layout : Layout (SQClass.create (none : Option (ℕ × SQClass Key Val)))
    := by
  have hno : ∀ key field idx,
      ¬ (SQClass.create (none : Option (ℕ × SQClass Key Val))).MemberAt key field idx := by
    rintro key field idx ⟨o, ho, -⟩
    change (∅ : FinMap Key ℕ).lookup key = some o at ho
    rw [Finmap.lookup_empty] at ho
    cases ho
  constructor
  · constructor
    · exact fun key idx h => absurd h (hno key true idx)
    · exact fun key idx h => absurd h (hno key false idx)
    · exact fun key _ field idx h => absurd h (hno key field idx)
    · exact .inl rfl
  · exact fun idx h => absurd h (Nat.not_lt_zero idx)
  · exact Nat.zero_le _

private theorem create_some_layout {c : SQClass Key Val} (h : Layout c) :
    Layout (SQClass.create (some (n, c))) :=
  h.congr rfl rfl rfl rfl

/-- A new class -/
theorem Invariant.add_class {d : SQClass Key Val} (h : Invariant s)
    (hlayout : d.size < 2 ^ 24 → Layout d) (hbase : ∀ b, d.base = some b → b < s.classes.length)
    (hlocked : d.locked = false) : Invariant { s with classes := s.classes ++ [d] } := by
  have hold : ∀ {m : ℕ} {c : SQClass Key Val}, (s.classes ++ [d])[m]? = some c →
      s.classes[m]? = some c ∨ m = s.classes.length ∧ c = d := by
    intro m c hc
    rw [List.getElem?_append] at hc
    split at hc
    · exact .inl hc
    · rename_i hm
      obtain ⟨hlt, hc⟩ := List.getElem?_eq_some_iff.mp hc
      rw [List.length_singleton] at hlt
      rw [List.getElem_singleton] at hc
      exact .inr ⟨by omega, hc.symm⟩
  have hkeep : ∀ {m : ℕ} {c : SQClass Key Val}, s.classes[m]? = some c →
      (s.classes ++ [d])[m]? = some c := by
    intro m c hc
    rw [List.getElem?_append_left (List.getElem?_eq_some_iff.mp hc).1]
    exact hc
  constructor
  · intro c hc
    obtain hc | hc := List.mem_append.mp hc
    · exact h.layout c hc
    · rw [List.mem_singleton.mp hc]
      exact hlayout
  · intro m c b hc hb
    obtain hc | ⟨rfl, rfl⟩ := hold hc
    · exact h.bases m c b hc hb
    · exact hbase b hb
  · intro m c b e hc hb hcl he hpending
    obtain hc | ⟨rfl, rfl⟩ := hold hc
    · obtain he | ⟨hlen, -⟩ := hold he
      · exact h.locked m c b e hc hb hcl he hpending
      · have hlt := h.bases m c b hc hb
        have hm := (List.getElem?_eq_some_iff.mp hc).1
        omega
    · rw [hlocked] at hcl
      cases hcl
  · intro i hi
    obtain ⟨c, hc, hrest⟩ := h.instances i hi
    exact ⟨c, hkeep hc, hrest⟩

theorem Invariant.createClass {base : Option ℕ} (h : Invariant s)
    (hs : s.createClass base = some s') : Invariant s' := by
  unfold ClassHeap.createClass at hs
  cases base with
  | none =>
    cases hs
    exact h.add_class (fun _ => create_none_layout) (fun b hb => by cases hb) rfl
  | some n =>
    obtain ⟨c, hc, rfl⟩ := Option.map_eq_some_iff.mp hs
    apply h.add_class
    · exact fun hsize => create_some_layout (h.layout c (List.mem_of_getElem? hc) hsize)
    · rintro b ⟨⟩
      exact (List.getElem?_eq_some_iff.mp hc).1
    · rfl

/-- A class is replaced by one with the same base and lock. -/
theorem Invariant.set_class {c d : SQClass Key Val} (h : Invariant s) (hc : s.classes[n]? = some c)
    (hgrown : Grown c d) (hbase : d.base = c.base) (hlocked : d.locked = c.locked) :
    Invariant { s with classes := s.classes.set n d } := by
  have hn := (List.getElem?_eq_some_iff.mp hc).1
  have hget : ∀ m : ℕ, (s.classes.set n d)[m]? = if n = m then some d else s.classes[m]? := by
    intro m
    rw [List.getElem?_set]
    simp only [hn, if_true]
  -- every class has one before with the same base and lock
  have hold : ∀ {m : ℕ} {e : SQClass Key Val}, (s.classes.set n d)[m]? = some e →
      ∃ e', s.classes[m]? = some e' ∧ e'.base = e.base ∧ e'.locked = e.locked := by
    intro m e he
    rw [hget] at he
    split at he
    · subst m
      cases he
      exact ⟨c, hc, hbase.symm, hlocked.symm⟩
    · exact ⟨e, he, rfl, rfl⟩
  constructor
  · intro e he hsize
    obtain he | rfl := List.mem_or_eq_of_mem_set he
    · exact h.layout e he hsize
    · exact hgrown.layout (h.layout c (List.mem_of_getElem? hc)) hsize
  · intro m e b he hb
    obtain ⟨e', he', hb', -⟩ := hold he
    exact h.bases m e' b he' (hb'.trans hb)
  · intro m e b e₂ he hb hel he₂ hpending
    obtain ⟨e', he', hb', hl'⟩ := hold he
    obtain ⟨e₂', he₂', -, hl₂'⟩ := hold he₂
    rw [← hl₂']
    exact h.locked m e' b e₂' he' (hb'.trans hb) (hl'.trans hel) he₂' hpending
  · intro i hi
    obtain ⟨e, he, hel, hlen⟩ := h.instances i hi
    unfold Fits
    rw [hget]
    split
    · rename_i hni
      rw [← hni, hc] at he
      cases he
      exact ⟨d, rfl, hlocked.trans hel, hlen.trans (hgrown.length_of_locked hel).symm⟩
    · exact ⟨e, he, hel, hlen⟩

theorem Invariant.newSlot {key : Key} {val : Val} {bstatic ok : Bool} (h : Invariant s)
    (hs : s.newSlot objects n key val bstatic = some (s', ok)) : Invariant s' := by
  obtain ⟨c, hc, heq⟩ := Option.map_eq_some_iff.mp hs
  cases heq
  exact h.set_class hc newSlot_grown newSlot_base.1 newSlot_base.2

theorem Invariant.lock (h : Invariant s) :
    Invariant { s with classes := Squirt.lock s.classes (n + 1) n } := by
  constructor
  · intro d hd hsize
    obtain ⟨m, hm⟩ := List.getElem?_of_mem hd
    obtain ⟨c, hc, hcd⟩ := lock_lockedSince hm
    obtain ⟨hmem, hvalues, hmethods, hctor, -⟩ := hcd.congr
    have hsize' : c.size < 2 ^ 24 := by
      unfold size at hsize ⊢
      rwa [hmem] at hsize
    apply (h.layout c (List.mem_of_getElem? hc) hsize').congr hmem _ _ hctor
    · rw [hvalues]
    · rw [hmethods]
  · intro m d b hd hb
    obtain ⟨c, hc, hcd⟩ := lock_lockedSince hd
    exact h.bases m c b hc (hcd.congr.2.2.2.2.1.symm.trans hb)
  · apply (lock_lockedDown (Nat.lt_succ_self n) h.bases _).1
    intro m c b d hc hb hl hd _
    exact h.locked m c b d hc hb hl hd nofun
  · intro i hi
    obtain ⟨c, hc, hl, hlen⟩ := h.instances i hi
    obtain ⟨d, hd, hcd⟩ : ∃ d, (Squirt.lock s.classes (n + 1) n)[i.cls]? = some d ∧ LockedSince c d :=
      lock_getElem? hc
    obtain ⟨-, hvalues, -, -, -, hlocked⟩ := hcd.congr
    exact ⟨d, hd, hlocked hl, by rw [hvalues, hlen]⟩

theorem Invariant.add_instance {i : SQInstance Val} (h : Invariant s) (hi : Fits s.classes i) :
    Invariant { s with instances := s.instances ++ [i] } where
  layout := h.layout
  bases := h.bases
  locked := h.locked
  instances := by
    intro j hj
    obtain hj | hj := List.mem_append.mp hj
    · exact h.instances j hj
    · rw [List.mem_singleton.mp hj]
      exact hi

theorem Invariant.createInstance (h : Invariant s) (hs : s.createInstance n = some s') :
    Invariant s' := by
  obtain ⟨c, hc, hs⟩ := Option.bind_eq_some_iff.mp hs
  dsimp only at hs
  cases hl : c.locked with
  | true =>
    rw [hl, Bool.not_true, if_neg Bool.false_ne_true] at hs
    obtain ⟨d, hd, rfl⟩ := Option.map_eq_some_iff.mp hs
    exact h.add_instance ⟨d, hd, by rw [hc] at hd; cases hd; exact hl, rfl⟩
  | false =>
    rw [hl, Bool.not_false, if_pos rfl] at hs
    obtain ⟨d, hd, rfl⟩ := Option.map_eq_some_iff.mp hs
    have hdown : LockedDown s.classes (some n) :=
      fun m c b d hc hb hl hd _ => h.locked m c b d hc hb hl hd nofun
    have hlocked := (lock_lockedDown (Nat.lt_succ_self n) h.bases hdown).2 d hd
    exact h.lock.add_instance ⟨d, hd, hlocked, rfl⟩

theorem Invariant.clone {j : ℕ} (h : Invariant s) (hs : s.clone j = some s') : Invariant s' := by
  obtain ⟨i, hi, hs⟩ := Option.bind_eq_some_iff.mp hs
  obtain ⟨c, hc, rfl⟩ := Option.map_eq_some_iff.mp hs
  obtain ⟨d, hd, hl, hlen⟩ := h.instances i (List.mem_of_getElem? hi)
  rw [hc] at hd
  cases hd
  apply h.add_instance
  refine ⟨c, hc, hl, ?_⟩
  rw [List.length_take, hlen, Nat.min_self]

theorem Invariant.set {j : ℕ} {key : Key} {val : Val} {ok : Bool} (h : Invariant s)
    (hs : s.set j key val = some (s', ok)) : Invariant s' := by
  obtain ⟨i, hi, hs⟩ := Option.bind_eq_some_iff.mp hs
  obtain ⟨c, hc, hs⟩ := Option.map_eq_some_iff.mp hs
  split at hs
  · cases hs
    refine ⟨h.layout, h.bases, h.locked, ?_⟩
    intro k hk
    obtain hk | rfl := List.mem_or_eq_of_mem_set hk
    · exact h.instances k hk
    · obtain ⟨d, hd, hl, hlen⟩ := h.instances i (List.mem_of_getElem? hi)
      exact ⟨d, hd, hl, List.length_set.trans hlen⟩
  · cases hs
    exact h

theorem Reachable.invariant (h : Reachable objects s) : Invariant s := by
  induction h with
  | empty => exact .empty
  | createClass _ hs ih => exact ih.createClass hs
  | newSlot _ hs ih => exact ih.newSlot hs
  | createInstance _ hs ih => exact ih.createInstance hs
  | clone _ hs ih => exact ih.clone hs
  | set _ hs ih => exact ih.set hs

/-- `Set` of a member changes what `Get` gives for this member of this instance and nothing
else. -/
structure SetsMember (objects : ClassObjects Key Val) (s s' : ClassHeap Key Val) (j : ℕ) (key : Key)
    (val : Val) : Prop where
  classes : s'.classes = s.classes
  own : s'.get objects j key = some (objects.realval val)
  others : ∀ j' key', (j', key') ≠ (j, key) → s'.get objects j' key' = s.get objects j' key'

/-- What `Get` and `Set` do with the members of an instance. -/
structure Members (objects : ClassObjects Key Val) (s : ClassHeap Key Val) (j : ℕ)
    (i : SQInstance Val) (c : SQClass Key Val) : Prop where
  field : ∀ key k, c.MemberAt key true k → ∃ v, i.values[k]? = some v ∧
    s.get objects j key = some (objects.realval v) ∧
    ∀ val, ∃ s', s.set j key val = some (s', true) ∧ SetsMember objects s s' j key val ∧
      s'.instances = s.instances.set j { i with values := i.values.set k val }
  method : ∀ key k, c.MemberAt key false k → ∃ v, c.methods[k]? = some v ∧
    s.get objects j key = some v
  none : ∀ key, (∀ k, ¬ c.MemberAt key true k) → ∀ val, s.set j key val = some (s, false)

section Access

variable {i : SQInstance Val} {c : SQClass Key Val} {j k : ℕ} {key : Key}

theorem get_eq (hi : s.instances[j]? = some i) (hc : s.classes[i.cls]? = some c) (key : Key) :
    s.get objects j key = (c.members.lookup key).bind fun idx =>
      if isfield idx then (i.values[member_idx idx]?).map objects.realval
      else c.methods[member_idx idx]? := by
  unfold ClassHeap.get
  rw [hi, Option.bind_some, hc, Option.bind_some]

theorem get_field (hi : s.instances[j]? = some i) (hc : s.classes[i.cls]? = some c)
    (hk : c.MemberAt key true k) :
    s.get objects j key = (i.values[k]?).map objects.realval := by
  obtain ⟨o, ho, hfield, rfl⟩ := hk
  rw [get_eq hi hc, ho, Option.bind_some, if_pos hfield]

private theorem get_method (hi : s.instances[j]? = some i) (hc : s.classes[i.cls]? = some c)
    (hk : c.MemberAt key false k) : s.get objects j key = c.methods[k]? := by
  obtain ⟨o, ho, hfield, rfl⟩ := hk
  rw [get_eq hi hc, ho, Option.bind_some, if_neg (by rw [hfield]; exact Bool.false_ne_true)]

private theorem set_eq (hi : s.instances[j]? = some i) (hc : s.classes[i.cls]? = some c)
    (hk : c.MemberAt key true k) (val : Val) :
    s.set j key val =
      some ({ s with instances := s.instances.set j { i with values := i.values.set k val } },
        true) := by
  obtain ⟨o, ho, hfield, rfl⟩ := hk
  unfold ClassHeap.set
  rw [hi, Option.bind_some, hc, Option.map_some, ho, Option.filter_some, if_pos hfield]

private theorem set_eq_false (hi : s.instances[j]? = some i) (hc : s.classes[i.cls]? = some c)
    (hk : ∀ k, ¬ c.MemberAt key true k) (val : Val) : s.set j key val = some (s, false) := by
  have hno : (c.members.lookup key).filter isfield = none := by
    rw [Option.filter_eq_none_iff]
    intro o ho hfield
    exact hk (member_idx o) ⟨o, ho, hfield, rfl⟩
  unfold ClassHeap.set
  rw [hi, Option.bind_some, hc, Option.map_some, hno]

/-- The value at the index of a member is of no other member. -/
theorem SetsMember.of_set {val : Val} (hi : s.instances[j]? = some i)
    (hc : s.classes[i.cls]? = some c) (hlaid : c.LaidOut) (hk : c.MemberAt key true k)
    (hlt : k < i.values.length) (hclasses : s'.classes = s.classes)
    (hset : s'.instances = s.instances.set j { i with values := i.values.set k val }) :
    SetsMember objects s s' j key val := by
  have hj := (List.getElem?_eq_some_iff.mp hi).1
  have hi' : s'.instances[j]? = some { i with values := i.values.set k val } := by
    rw [hset, List.getElem?_set_self hj]
  have hc' : s'.classes[i.cls]? = some c := by rw [hclasses, hc]
  constructor
  · exact hclasses
  · rw [get_field hi' hc' hk, List.getElem?_set_self hlt, Option.map_some]
  · intro j' key' hne
    by_cases hjj : j' = j
    · subst hjj
      have hkey : key' ≠ key := fun hkey => hne (by rw [hkey])
      rw [get_eq hi' hc', get_eq hi hc]
      cases ho : c.members.lookup key' with
      | none => rfl
      | some o =>
        rw [Option.bind_some, Option.bind_some]
        split
        · rename_i hfield
          have hidx : k ≠ member_idx o := by
            rintro rfl
            exact hkey (hlaid.distinct key' key true _ ⟨o, ho, hfield, rfl⟩ hk)
          rw [List.getElem?_set_ne hidx]
        · rfl
    · unfold ClassHeap.get
      rw [hset, hclasses, List.getElem?_set_ne (Ne.symm hjj)]

private theorem Members.of_laidOut (hi : s.instances[j]? = some i) (hc : s.classes[i.cls]? = some c)
    (hlaid : c.LaidOut) (hlen : i.values.length = c.defaultvalues.length) :
    Members objects s j i c := by
  constructor
  · intro key k hk
    have hlt : k < i.values.length := by
      rw [hlen]
      exact hlaid.fields key k hk
    refine ⟨i.values[k], List.getElem?_eq_getElem hlt, ?_, ?_⟩
    · rw [get_field hi hc hk, List.getElem?_eq_getElem hlt, Option.map_some]
    · intro val
      exact ⟨_, set_eq hi hc hk val, .of_set hi hc hlaid hk hlt rfl rfl, rfl⟩
  · intro key k hk
    have hlt := hlaid.methods key k hk
    refine ⟨c.methods[k], List.getElem?_eq_getElem hlt, ?_⟩
    rw [get_method hi hc hk, List.getElem?_eq_getElem hlt]
  · intro key hk val
    exact set_eq_false hi hc hk val

end Access

/-- In every class with fewer than 2^24 members the members have indices of their own; every
instance has as many values as its class has default values, and `Get` and `Set` of a member are
about its own value. -/
theorem class_layout (h : Reachable objects s) :
    (∀ c ∈ s.classes, c.size < 2 ^ 24 → c.LaidOut) ∧
      ∀ j i, s.instances[j]? = some i → ∃ c, s.classes[i.cls]? = some c ∧
        i.values.length = c.defaultvalues.length ∧
        (c.size < 2 ^ 24 → Members objects s j i c) := by
  have hinv := h.invariant
  constructor
  · intro c hc hsize
    exact (hinv.layout c hc hsize).toLaidOut
  · intro j i hi
    obtain ⟨c, hc, -, hlen⟩ := hinv.instances i (List.mem_of_getElem? hi)
    refine ⟨c, hc, hlen, ?_⟩
    intro hsize
    exact .of_laidOut hi hc (hinv.layout c (List.mem_of_getElem? hc) hsize).toLaidOut hlen

/-- Numbers, those from 100 on for closures, and constructor 0 -/
def numberObjects : ClassObjects ℕ ℕ where
  isClosure v := decide (100 ≤ v)
  isNativeClosure _ := false
  withBase v _ := v
  realval v := v
  metamethodIdx _ := none
  constructor := 0

/-- A class with a field and a method, and one that derives from it, with another field and its own
method of that name. The field is set in one of two instances. -/
theorem class_layout_derived : ∃ s : ClassHeap ℕ ℕ,
    s.instances.map (·.values) = [[8, 9], [7, 9]] ∧ s.get numberObjects 1 2 = some 102 ∧
    (∀ c ∈ s.classes, c.size < 2 ^ 24 → c.LaidOut) ∧
      ∀ j i, s.instances[j]? = some i → ∃ c, s.classes[i.cls]? = some c ∧
        i.values.length = c.defaultvalues.length ∧
        (c.size < 2 ^ 24 → Members numberObjects s j i c) := by
  have hbase : Reachable numberObjects (⟨[.create none], []⟩ : ClassHeap ℕ ℕ) :=
    .createClass .empty (show createClass _ none = _ from rfl)
  have hfield := hbase.newSlot (show newSlot _ numberObjects 0 1 7 false = some (_, true) from rfl)
  have hmethod := hfield.newSlot
    (show newSlot _ numberObjects 0 2 101 false = some (_, true) from rfl)
  have hderived := hmethod.createClass (show createClass _ (some 0) = some _ from rfl)
  have hoverride := hderived.newSlot
    (show newSlot _ numberObjects 1 2 102 false = some (_, true) from rfl)
  have hown := hoverride.newSlot
    (show newSlot _ numberObjects 1 3 9 false = some (_, true) from rfl)
  have hfirst := hown.createInstance (show createInstance _ 1 = some _ from rfl)
  have hsecond := hfirst.createInstance (show createInstance _ 1 = some _ from rfl)
  have hset := hsecond.set (show set _ 0 1 8 = some (_, true) from rfl)
  exact ⟨_, rfl, rfl, class_layout hset⟩

end ClassHeap

end Squirt
