import Squirt.ClassLayout
import Mathlib.Data.Nat.Bitwise
import Mathlib.Data.Fintype.Card

/-!
# The layout of classes

The indices of the members of a class are those of its default values and methods, and an
instance has as many values as its class has default values.
-/

namespace Squirt

open SQTable (FinMap)

variable {Key Val : Type*} {n m : ℕ}

private theorem and_two_pow_eq_zero {i : ℕ} (hn : n < 2 ^ i) : n &&& 2 ^ i = 0 := by
  rw [Nat.and_two_pow, Nat.testBit_lt_two_pow hn, Bool.toNat_false, Nat.zero_mul]

private theorem isfield_make_field_idx (n : ℕ) : isfield (make_field_idx n) = true := by
  have hself : MEMBER_TYPE_FIELD &&& MEMBER_TYPE_FIELD = MEMBER_TYPE_FIELD := Nat.and_self _
  unfold isfield make_field_idx
  rw [Nat.and_or_distrib_right, hself, bne_iff_ne, ne_eq, Nat.or_eq_zero_iff]
  intro h
  exact absurd h.1 (by decide)

private theorem isfield_make_method_idx (hn : n < 2 ^ 24) : isfield (make_method_idx n) = false
    := by
  have hzero : n &&& MEMBER_TYPE_FIELD = 0 :=
    and_two_pow_eq_zero (i := 25) (hn.trans (by decide))
  unfold isfield make_method_idx
  rw [Nat.and_or_distrib_right, hzero]
  decide

theorem member_idx_or {type : ℕ} (htype : type &&& 0x00FFFFFF = 0) (hn : n < 2 ^ 24) :
    member_idx (type ||| n) = n := by
  unfold member_idx
  rw [Nat.and_or_distrib_right, htype, Nat.zero_or, show (0x00FFFFFF : ℕ) = 2 ^ 24 - 1 by decide,
    Nat.and_two_pow_sub_one_eq_mod, Nat.mod_eq_of_lt hn]

private theorem member_idx_make_field_idx (hn : n < 2 ^ 24) : member_idx (make_field_idx n) = n :=
  member_idx_or (by decide) hn

private theorem member_idx_make_method_idx (hn : n < 2 ^ 24) : member_idx (make_method_idx n) = n :=
  member_idx_or (by decide) hn

namespace SQClass

variable {c : SQClass Key Val}

variable [DecidableEq Key]

/-- The member `key` of a class has the index `idx` among the fields or methods. -/
def MemberAt (c : SQClass Key Val) (key : Key) (field : Bool) (idx : ℕ) : Prop :=
  ∃ o, c.members.lookup key = some o ∧ isfield o = field ∧ member_idx o = idx

/-- The indices of the members are in range, no two members of a kind have the same one, and the
constructor is a method. -/
structure LaidOut (c : SQClass Key Val) : Prop where
  fields : ∀ key idx, c.MemberAt key true idx → idx < c.defaultvalues.length
  methods : ∀ key idx, c.MemberAt key false idx → idx < c.methods.length
  distinct : ∀ key key' field idx, c.MemberAt key field idx → c.MemberAt key' field idx → key = key'
  constructor : c.constructoridx = -1 ∨ ∃ k : ℕ, c.constructoridx = k ∧ k < c.methods.length

/-- As many members as there are -/
def size (c : SQClass Key Val) : ℕ := c.members.keys.card

/-- What is needed besides while slots are added. -/
structure Layout (c : SQClass Key Val) : Prop extends LaidOut c where
  filled : ∀ idx < c.defaultvalues.length, ∃ key, c.MemberAt key true idx
  counted : c.methods.length ≤ c.size

private theorem MemberAt.index_eq {key : Key} {field field' : Bool} {idx idx' : ℕ}
    (h : c.MemberAt key field idx) (h' : c.MemberAt key field' idx') :
    field = field' ∧ idx = idx' := by
  obtain ⟨o, ho, rfl, rfl⟩ := h
  obtain ⟨o', ho', rfl, rfl⟩ := h'
  rw [ho] at ho'
  cases ho'
  exact ⟨rfl, rfl⟩

theorem MemberAt.mem {key : Key} {field : Bool} {idx : ℕ} (h : c.MemberAt key field idx) :
    key ∈ c.members.keys := by
  obtain ⟨o, ho, -⟩ := h
  rw [Finmap.mem_keys]
  exact Finmap.mem_of_lookup_eq_some ho

/-- Each field has a key of its own. -/
theorem Layout.length_le (h : Layout c) : c.defaultvalues.length ≤ c.size := by
  choose key hkey using h.filled
  have hle : (Finset.univ : Finset (Fin c.defaultvalues.length)).card ≤ c.size := by
    apply Finset.card_le_card_of_injOn (fun i : Fin c.defaultvalues.length => key i i.isLt)
    · intro i _
      exact (hkey i i.isLt).mem
    · intro i _ j _ hij
      have hi := hkey i i.isLt
      simp only at hij
      rw [hij] at hi
      exact Fin.ext (hi.index_eq (hkey j j.isLt)).2
  rwa [Finset.card_univ, Fintype.card_fin] at hle

/-- Only the indices and the numbers of values count. -/
theorem Layout.congr {d : SQClass Key Val} (h : Layout c) (hmem : d.members = c.members)
    (hvalues : d.defaultvalues.length = c.defaultvalues.length)
    (hmethods : d.methods.length = c.methods.length)
    (hctor : d.constructoridx = c.constructoridx) : Layout d := by
  have hat : ∀ key field idx, d.MemberAt key field idx ↔ c.MemberAt key field idx := by
    intro key field idx
    unfold MemberAt
    rw [hmem]
  constructor
  · constructor
    · intro key idx hidx
      rw [hvalues]
      exact h.fields key idx ((hat _ _ _).mp hidx)
    · intro key idx hidx
      rw [hmethods]
      exact h.methods key idx ((hat _ _ _).mp hidx)
    · intro key key' field idx hidx hidx'
      exact h.distinct key key' field idx ((hat _ _ _).mp hidx) ((hat _ _ _).mp hidx')
    · rw [hctor, hmethods]
      exact h.constructor
  · intro idx hidx
    rw [hvalues] at hidx
    obtain ⟨key, hkey⟩ := h.filled idx hidx
    exact ⟨key, (hat _ _ _).mpr hkey⟩
  · unfold size
    rw [hmethods, hmem]
    exact h.counted

section Insert

variable {d : SQClass Key Val} {key : Key} {o : ℕ}

theorem memberAt_insert (hmem : d.members = c.members.insert key o) {key' : Key} {field : Bool}
    {idx : ℕ} (h : d.MemberAt key' field idx) :
    key' = key ∧ isfield o = field ∧ member_idx o = idx ∨ key' ≠ key ∧ c.MemberAt key' field idx := by
  obtain ⟨p, hp, hfield, hidx⟩ := h
  rw [hmem] at hp
  by_cases hk : key' = key
  · left
    rw [hk, Finmap.lookup_insert] at hp
    cases hp
    exact ⟨hk, hfield, hidx⟩
  · right
    rw [Finmap.lookup_insert_of_ne _ hk] at hp
    exact ⟨hk, p, hp, hfield, hidx⟩

private theorem MemberAt.insert_self (hmem : d.members = c.members.insert key o) :
    d.MemberAt key (isfield o) (member_idx o) := by
  refine ⟨o, ?_, rfl, rfl⟩
  rw [hmem, Finmap.lookup_insert]

theorem MemberAt.insert_of_ne (hmem : d.members = c.members.insert key o) {key' : Key}
    (hk : key' ≠ key) {field : Bool} {idx : ℕ} (h : c.MemberAt key' field idx) :
    d.MemberAt key' field idx := by
  obtain ⟨p, hp, hfield, hidx⟩ := h
  refine ⟨p, ?_, hfield, hidx⟩
  rw [hmem, Finmap.lookup_insert_of_ne _ hk, hp]

theorem keys_insert (hmem : d.members = c.members.insert key o) :
    d.members.keys = Insert.insert key c.members.keys := by
  ext k
  rw [hmem, Finmap.mem_keys, Finmap.mem_insert, Finset.mem_insert, Finmap.mem_keys]

theorem size_insert (hmem : d.members = c.members.insert key o) : c.size ≤ d.size := by
  unfold size
  rw [keys_insert hmem]
  exact Finset.card_le_card (Finset.subset_insert _ _)

private theorem size_insert_of_lookup (hmem : d.members = c.members.insert key o)
    (hnew : c.members.lookup key = none) : d.size = c.size + 1 := by
  unfold size
  rw [keys_insert hmem]
  apply Finset.card_insert_of_notMem
  rw [Finmap.mem_keys]
  exact Finmap.lookup_eq_none.mp hnew

end Insert

/-- A new method -/
theorem Layout.add_method {d : SQClass Key Val} {key : Key} (h : Layout c) (hsize : c.size < 2 ^ 24)
    (hnew : c.members.lookup key = none)
    (hmem : d.members = c.members.insert key (make_method_idx c.methods.length))
    (hvalues : d.defaultvalues = c.defaultvalues) (hmethods : d.methods.length = c.methods.length + 1)
    (hctor : d.constructoridx = c.methods.length ∨ d.constructoridx = c.constructoridx) :
    Layout d := by
  have hlt : c.methods.length < 2 ^ 24 := h.counted.trans_lt hsize
  have hat : ∀ {key' field idx}, d.MemberAt key' field idx →
      key' = key ∧ field = false ∧ idx = c.methods.length ∨
        key' ≠ key ∧ c.MemberAt key' field idx := by
    intro key' field idx h'
    have h' := memberAt_insert hmem h'
    rw [isfield_make_method_idx hlt, member_idx_make_method_idx hlt] at h'
    exact h'.imp (fun h' => ⟨h'.1, h'.2.1.symm, h'.2.2.symm⟩) id
  constructor
  · constructor
    · intro key' idx h'
      rw [hvalues]
      obtain ⟨-, hf, -⟩ | ⟨-, h'⟩ := hat h'
      · cases hf
      · exact h.fields key' idx h'
    · intro key' idx h'
      rw [hmethods]
      obtain ⟨-, -, rfl⟩ | ⟨-, h'⟩ := hat h'
      · exact Nat.lt_succ_self _
      · exact (h.methods key' idx h').trans (Nat.lt_succ_self _)
    · intro key₁ key₂ field idx h₁ h₂
      obtain ⟨rfl, rfl, rfl⟩ | ⟨-, h₁⟩ := hat h₁
      · obtain ⟨rfl, -, -⟩ | ⟨-, h₂⟩ := hat h₂
        · rfl
        · exact absurd (h.methods key₂ _ h₂) (lt_irrefl _)
      · obtain ⟨-, rfl, rfl⟩ | ⟨-, h₂⟩ := hat h₂
        · exact absurd (h.methods key₁ _ h₁) (lt_irrefl _)
        · exact h.distinct key₁ key₂ field idx h₁ h₂
    · rw [hmethods]
      obtain hctor | hctor := hctor
      · exact .inr ⟨_, hctor, Nat.lt_succ_self _⟩
      · rw [hctor]
        exact h.constructor.imp id fun ⟨k, hk, hlt⟩ => ⟨k, hk, hlt.trans (Nat.lt_succ_self _)⟩
  · intro idx hidx
    rw [hvalues] at hidx
    obtain ⟨key', o, ho, h'⟩ := h.filled idx hidx
    have hk : key' ≠ key := by
      rintro rfl
      rw [hnew] at ho
      cases ho
    exact ⟨key', MemberAt.insert_of_ne hmem hk ⟨o, ho, h'⟩⟩
  · rw [hmethods, size_insert_of_lookup hmem hnew]
    exact Nat.succ_le_succ h.counted

/-- A new field, also in the place of a method -/
theorem Layout.add_field {d : SQClass Key Val} {key : Key} (h : Layout c) (hsize : c.size < 2 ^ 24)
    (hnew : (c.members.lookup key).filter isfield = none)
    (hmem : d.members = c.members.insert key (make_field_idx c.defaultvalues.length))
    (hvalues : d.defaultvalues.length = c.defaultvalues.length + 1) (hmethods : d.methods = c.methods)
    (hctor : d.constructoridx = c.constructoridx) : Layout d := by
  have hlt : c.defaultvalues.length < 2 ^ 24 := h.length_le.trans_lt hsize
  have hat : ∀ {key' field idx}, d.MemberAt key' field idx →
      key' = key ∧ field = true ∧ idx = c.defaultvalues.length ∨
        key' ≠ key ∧ c.MemberAt key' field idx := by
    intro key' field idx h'
    have h' := memberAt_insert hmem h'
    rw [isfield_make_field_idx, member_idx_make_field_idx hlt] at h'
    exact h'.imp (fun h' => ⟨h'.1, h'.2.1.symm, h'.2.2.symm⟩) id
  constructor
  · constructor
    · intro key' idx h'
      rw [hvalues]
      obtain ⟨-, -, rfl⟩ | ⟨-, h'⟩ := hat h'
      · exact Nat.lt_succ_self _
      · exact (h.fields key' idx h').trans (Nat.lt_succ_self _)
    · intro key' idx h'
      rw [hmethods]
      obtain ⟨-, hf, -⟩ | ⟨-, h'⟩ := hat h'
      · cases hf
      · exact h.methods key' idx h'
    · intro key₁ key₂ field idx h₁ h₂
      obtain ⟨rfl, rfl, rfl⟩ | ⟨-, h₁⟩ := hat h₁
      · obtain ⟨rfl, -, -⟩ | ⟨-, h₂⟩ := hat h₂
        · rfl
        · exact absurd (h.fields key₂ _ h₂) (lt_irrefl _)
      · obtain ⟨-, rfl, rfl⟩ | ⟨-, h₂⟩ := hat h₂
        · exact absurd (h.fields key₁ _ h₁) (lt_irrefl _)
        · exact h.distinct key₁ key₂ field idx h₁ h₂
    · rw [hmethods, hctor]
      exact h.constructor
  · intro idx hidx
    rw [hvalues] at hidx
    obtain hidx | rfl := Nat.lt_succ_iff_lt_or_eq.mp hidx
    · obtain ⟨key', o, ho, hfield, h'⟩ := h.filled idx hidx
      have hk : key' ≠ key := by
        rintro rfl
        rw [ho, Option.filter_some, hfield] at hnew
        cases hnew
      exact ⟨key', MemberAt.insert_of_ne hmem hk ⟨o, ho, hfield, h'⟩⟩
    · have hself := MemberAt.insert_self hmem
      rw [isfield_make_field_idx, member_idx_make_field_idx hlt] at hself
      exact ⟨key, hself⟩
  · rw [hmethods]
    exact h.counted.trans (size_insert hmem)

/-- What `NewSlot` does to the layout. -/
inductive Grown (c d : SQClass Key Val) : Prop
  | values (hmem : d.members = c.members)
    (hvalues : d.defaultvalues.length = c.defaultvalues.length)
    (hmethods : d.methods.length = c.methods.length) (hctor : d.constructoridx = c.constructoridx)
  | method (key : Key) (hnew : c.members.lookup key = none)
    (hmem : d.members = c.members.insert key (make_method_idx c.methods.length))
    (hvalues : d.defaultvalues = c.defaultvalues) (hmethods : d.methods.length = c.methods.length + 1)
    (hctor : d.constructoridx = c.methods.length ∨ d.constructoridx = c.constructoridx)
  | field (key : Key) (hunlocked : c.locked = false)
    (hnew : (c.members.lookup key).filter isfield = none)
    (hmem : d.members = c.members.insert key (make_field_idx c.defaultvalues.length))
    (hvalues : d.defaultvalues.length = c.defaultvalues.length + 1) (hmethods : d.methods = c.methods)
    (hctor : d.constructoridx = c.constructoridx)

variable {objects : ClassObjects Key Val} {key : Key} {val : Val} {bstatic : Bool}

private theorem newMethod_base {temp : Option ℕ} :
    (c.newMethod objects key val temp).base = c.base ∧
      (c.newMethod objects key val temp).locked = c.locked := by
  unfold newMethod
  dsimp only
  split
  · exact ⟨rfl, rfl⟩
  · cases temp with
    | none => exact ⟨rfl, rfl⟩
    | some temp => exact ⟨rfl, rfl⟩

theorem newSlot_base :
    (c.newSlot objects key val bstatic).1.base = c.base ∧
      (c.newSlot objects key val bstatic).1.locked = c.locked := by
  unfold newSlot
  dsimp only
  split
  · exact ⟨rfl, rfl⟩
  · split
    · exact ⟨rfl, rfl⟩
    · split
      · exact newMethod_base
      · exact ⟨rfl, rfl⟩

private theorem newMethod_grown :
    Grown c (c.newMethod objects key val (c.members.lookup key)) := by
  unfold newMethod
  dsimp only
  split
  · exact .values rfl rfl rfl rfl
  · cases htemp : c.members.lookup key with
    | none =>
      refine .method key htemp rfl rfl List.length_append ?_
      dsimp only
      split
      · exact .inl rfl
      · exact .inr rfl
    | some temp => exact .values rfl rfl List.length_set rfl

theorem newSlot_grown : Grown c (c.newSlot objects key val bstatic).1 := by
  unfold newSlot
  dsimp only
  split
  · exact .values rfl rfl rfl rfl
  · rename_i hlocked
    split
    · exact .values rfl List.length_set rfl rfl
    · rename_i hfield
      split
      · exact newMethod_grown
      · rename_i hstatic
        have hunlocked : c.locked = false := by
          rw [Bool.not_eq_true] at hstatic hlocked
          rw [hstatic, Bool.not_false, Bool.and_true] at hlocked
          exact hlocked
        exact .field key hunlocked hfield rfl List.length_append rfl rfl

private theorem Grown.size_le {d : SQClass Key Val} (h : Grown c d) : c.size ≤ d.size := by
  cases h with
  | values hmem _ _ _ =>
    unfold size
    rw [hmem]
  | method key hnew hmem _ _ _ => exact size_insert hmem
  | field key _ _ hmem _ _ _ => exact size_insert hmem

theorem Grown.layout {d : SQClass Key Val} (h : Grown c d) (hc : c.size < 2 ^ 24 → Layout c)
    (hsize : d.size < 2 ^ 24) : Layout d := by
  have hlt : c.size < 2 ^ 24 := h.size_le.trans_lt hsize
  cases h with
  | values hmem hvalues hmethods hctor => exact (hc hlt).congr hmem hvalues hmethods hctor
  | method key hnew hmem hvalues hmethods hctor =>
    exact (hc hlt).add_method hlt hnew hmem hvalues hmethods hctor
  | field key _ hnew hmem hvalues hmethods hctor =>
    exact (hc hlt).add_field hlt hnew hmem hvalues hmethods hctor

/-- Locked classes get no more default values. -/
theorem Grown.length_of_locked {d : SQClass Key Val} (h : Grown c d) (hlocked : c.locked = true) :
    d.defaultvalues.length = c.defaultvalues.length := by
  cases h with
  | values _ hvalues _ _ => exact hvalues
  | method _ _ _ hvalues _ _ => rw [hvalues]
  | field _ hunlocked _ _ _ _ _ =>
    rw [hlocked] at hunlocked
    cases hunlocked

end SQClass

/-- A class as before, or locked since -/
def LockedSince (c d : SQClass Key Val) : Prop :=
  d = c ∨ d = { c with locked := true }

theorem LockedSince.congr {c d : SQClass Key Val} (h : LockedSince c d) :
    d.members = c.members ∧ d.defaultvalues = c.defaultvalues ∧ d.methods = c.methods ∧
      d.constructoridx = c.constructoridx ∧ d.base = c.base ∧ (c.locked = true → d.locked = true) := by
  obtain rfl | rfl := h
  · exact ⟨rfl, rfl, rfl, rfl, rfl, id⟩
  · exact ⟨rfl, rfl, rfl, rfl, rfl, fun _ => rfl⟩

theorem LockedSince.trans {c d e : SQClass Key Val} (h : LockedSince c d) (h' : LockedSince d e) :
    LockedSince c e := by
  obtain rfl | rfl := h
  · exact h'
  · obtain rfl | rfl := h'
    · exact .inr rfl
    · exact .inr rfl

theorem getElem?_set_locked {classes : List (SQClass Key Val)} {c : SQClass Key Val}
    (hc : classes[n]? = some c) (m : ℕ) :
    (classes.set n { c with locked := true })[m]? =
      if n = m then some { c with locked := true } else classes[m]? := by
  have hn : n < classes.length := by
    rw [List.getElem?_eq_some_iff] at hc
    exact hc.1
  rw [List.getElem?_set]
  simp only [hn, if_true]

/-- `Lock` locks and does nothing else. -/
theorem lock_lockedSince {fuel : ℕ} {classes : List (SQClass Key Val)} {d : SQClass Key Val}
    (hd : (lock classes fuel n)[m]? = some d) : ∃ c, classes[m]? = some c ∧ LockedSince c d := by
  induction fuel generalizing classes n with
  | zero => exact ⟨d, hd, .inl rfl⟩
  | succ fuel ih =>
    unfold lock at hd
    cases hc : classes[n]? with
    | none =>
      rw [hc] at hd
      exact ⟨d, hd, .inl rfl⟩
    | some c =>
      have hset : ∀ e, (classes.set n { c with locked := true })[m]? = some e →
          ∃ c, classes[m]? = some c ∧ LockedSince c e := by
        intro e he
        rw [getElem?_set_locked hc] at he
        split at he
        · subst m
          cases he
          exact ⟨c, hc, .inr rfl⟩
        · exact ⟨e, he, .inl rfl⟩
      rw [hc] at hd
      dsimp only at hd
      split at hd
      · exact hset d hd
      · obtain ⟨e, he, hde⟩ := ih hd
        obtain ⟨c', hc', hce⟩ := hset e he
        exact ⟨c', hc', hce.trans hde⟩

theorem lock_getElem? {fuel : ℕ} {classes : List (SQClass Key Val)} {c : SQClass Key Val}
    (hc : classes[m]? = some c) : ∃ d, (lock classes fuel n)[m]? = some d ∧ LockedSince c d := by
  induction fuel generalizing classes n c with
  | zero => exact ⟨c, hc, .inl rfl⟩
  | succ fuel ih =>
    unfold lock
    cases hn : classes[n]? with
    | none => exact ⟨c, hc, .inl rfl⟩
    | some c' =>
      have hset : ∃ e, (classes.set n { c' with locked := true })[m]? = some e ∧ LockedSince c e := by
        rw [getElem?_set_locked hn]
        split
        · subst m
          rw [hn] at hc
          cases hc
          exact ⟨_, rfl, .inr rfl⟩
        · exact ⟨c, hc, .inl rfl⟩
      dsimp only
      split
      · exact hset
      · obtain ⟨e, he, hce⟩ := hset
        obtain ⟨d, hd, hed⟩ := ih he
        exact ⟨d, hd, hce.trans hed⟩

/-- The bases of locked classes are locked, with an exception for `pending`. -/
def LockedDown (classes : List (SQClass Key Val)) (pending : Option ℕ) : Prop :=
  ∀ (m : ℕ) (c : SQClass Key Val) (b : ℕ) (d : SQClass Key Val), classes[m]? = some c → c.base = some b → c.locked = true → classes[b]? = some d →
    pending ≠ some b → d.locked = true

/-- Bases come first. -/
def BasesFirst (classes : List (SQClass Key Val)) : Prop :=
  ∀ (m : ℕ) (c : SQClass Key Val) (b : ℕ), classes[m]? = some c → c.base = some b → b < m

private theorem BasesFirst.set_locked {classes : List (SQClass Key Val)} {c : SQClass Key Val}
    (h : BasesFirst classes) (hc : classes[n]? = some c) :
    BasesFirst (classes.set n { c with locked := true }) := by
  intro m d b hd hb
  rw [getElem?_set_locked hc] at hd
  split at hd
  · subst m
    cases hd
    exact h n c b hc hb
  · exact h m d b hd hb

/-- `Lock` locks the class and its bases. -/
theorem lock_lockedDown {fuel : ℕ} {classes : List (SQClass Key Val)} (hfuel : n < fuel)
    (hbases : BasesFirst classes) (h : LockedDown classes (some n)) :
    LockedDown (lock classes fuel n) none ∧
      ∀ d, (lock classes fuel n)[n]? = some d → d.locked = true := by
  induction fuel generalizing classes n with
  | zero => exact absurd hfuel (Nat.not_lt_zero _)
  | succ fuel ih =>
    unfold lock
    cases hc : classes[n]? with
    | none =>
      constructor
      · intro m c b d hm hb hlocked hd _
        apply h m c b d hm hb hlocked hd
        rintro ⟨⟩
        rw [hc] at hd
        cases hd
      · intro d hd
        rw [hc] at hd
        cases hd
    | some c =>
      have hget := getElem?_set_locked hc
      have hdown : ∀ p, c.base = p → LockedDown (classes.set n { c with locked := true }) p := by
        rintro _ rfl m e b d hm hb hlocked hd hpending
        rw [hget] at hm hd
        by_cases hnb : n = b
        · rw [if_pos hnb] at hd
          cases hd
          rfl
        · rw [if_neg hnb] at hd
          by_cases hnm : n = m
          · rw [if_pos hnm] at hm
            cases hm
            exact absurd hb hpending
          · rw [if_neg hnm] at hm
            exact h m e b d hm hb hlocked hd (fun hcon => hnb (Option.some.inj hcon))
      dsimp only
      split
      · rename_i hbase
        refine ⟨hdown none hbase, ?_⟩
        intro d hd
        rw [hget, if_pos rfl] at hd
        cases hd
        rfl
      · rename_i base hbase
        have hlt := hbases n c base hc hbase
        obtain ⟨hdown', -⟩ := ih (by omega) (hbases.set_locked hc) (hdown _ hbase)
        refine ⟨hdown', ?_⟩
        intro d hd
        obtain ⟨e, he, hed⟩ := lock_lockedSince hd
        rw [hget, if_pos rfl] at he
        cases he
        exact hed.congr.2.2.2.2.2 rfl

end Squirt
