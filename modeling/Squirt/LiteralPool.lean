import Squirt.CodeEmission
import Squirt.MachineIntegers
import Squirt.Programs
import Squirt.TableIteration

/-!
# The literals of a function

`GetConstant` gives a constant an index, which a table keeps under the constant itself; `BuildProto`
goes through the table and inverts it. An instruction that `AddInstruction` merges with another one
keeps the indices of its literals.
-/

namespace Squirt.Literals

open Programs Program SQCompiler MachineIntegers

def MAX_LITERALS : ℤ := 0x7FFFFFFF

inductive LiteralType
  | string
  | float
  | bool
  | integer
  | other (type : ℕ)
  deriving DecidableEq

/-- A constant that is not null: its type and `_unVal.raw` -/
structure Literal where
  type : LiteralType
  raw : ℕ
  deriving DecidableEq

/-- What `HashObj` looks at: `_hash` of a string, the integer of a float, and that of an integer -/
structure Hashes where
  string : ℕ → ℕ
  float : ℕ → ℕ
  integer : ℕ → ℕ

def Hashes.hashObj (H : Hashes) (key : Literal) : ℕ :=
  match key.type with
  | .string => H.string key.raw
  | .float => H.float key.raw
  | .bool | .integer => H.integer key.raw
  | .other _ => key.raw / 8

structure Pool where
  literals : SQTable Literal ℤ
  nliterals : ℤ

inductive PoolError
  | error (message : String)
  /-- `assert(sqobjtype(key) != OT_NULL)` -/
  | assertion
  | stuck
  deriving DecidableEq

abbrev PoolProgram (α : Type) := Program Pool PoolError α

section Model

variable (H : Hashes)

def Pool.init : Pool := ⟨SQTable.create 0, 0⟩

/-- `GetConstant`; `none` is null. -/
def getConstant (cons : Option Literal) : PoolProgram ℤ := do
  let s ← get
  match s.literals.get H.hashObj id cons with
  | none => raise .stuck
  | some (some val) => pure val
  | some none =>
    let val := s.nliterals
    match cons with
    | none => raise .assertion
    | some key =>
      match SQTable.newSlot H.hashObj SQTable.depth s.literals key val with
      | none => raise .stuck
      | some (literals, _) =>
        set (Pool.mk literals (s.nliterals + 1))
        if s.nliterals + 1 > MAX_LITERALS then
          raise (.error "internal compiler error: too many literals")
        else pure val

def getConstants : List (Option Literal) → PoolProgram (List ℤ)
  | [] => pure []
  | cons :: rest => do
    let val ← getConstant H cons
    let vals ← getConstants rest
    pure (val :: vals)

/-- `f->_literals[i] = key` -/
def storeLiteral (literals : List (Option Literal)) (entry : Literal × ℤ) :
    Option (List (Option Literal)) :=
  if 0 ≤ entry.2 ∧ entry.2 < literals.length then some (literals.set entry.2.toNat (some entry.1))
  else none

/-- The literals of the prototype that `BuildProto` makes; the objects of `Create` are null. -/
def Pool.buildProto (s : Pool) : Option (List (Option Literal)) := do
  let entries ← s.literals.iterate id false (s.literals.numofnodes + 1) none
  entries.foldlM storeLiteral (List.replicate s.nliterals.toNat none)

end Model

variable {H : Hashes}

/-- The pool holds the constants of a list, each under its place. -/
structure Pool.Holds (H : Hashes) (s : Pool) (cs : List Literal) : Prop where
  inv : SQTable.Invariant H.hashObj s.literals
  nodup : cs.Nodup
  nliterals : s.nliterals = cs.length
  entries : ∀ k v, s.literals.Holds k v ↔ ∃ i : ℕ, v = i ∧ cs[i]? = some k

theorem holds_init : Pool.init.Holds H [] := by
  obtain ⟨hinv, hempty⟩ := SQTable.invariant_create (V := ℤ) H.hashObj 0
  refine ⟨hinv, List.nodup_nil, rfl, fun k v => iff_of_false (hempty k v) ?_⟩
  rintro ⟨i, -, hi⟩
  cases hi

section Holds

variable {s : Pool} {cs : List Literal} (h : s.Holds H cs)

include h

theorem Pool.Holds.get (c : Literal) : s.literals.get H.hashObj id (some c) =
    some (if c ∈ cs then some (cs.idxOf c : ℤ) else none) := by
  rcases h.inv.toChained.get_spec c with ⟨i, hget, hkey⟩ | ⟨hget, habs⟩
  · obtain ⟨k, hk, hplace⟩ := (h.entries c _).mp ⟨i, hkey, rfl⟩
    have hmem : c ∈ cs := List.mem_of_getElem? hplace
    have hidx : cs.idxOf c = k := by
      obtain ⟨hlt, heq⟩ := List.getElem?_eq_some_iff.mp hplace
      rw [← heq, List.Nodup.idxOf_getElem h.nodup]
    rw [if_pos hmem, hidx, ← hk]
    simp only [SQTable.get, hget, SQTable.valAt]
    rfl
  · have hmem : c ∉ cs := by
      intro hmem
      obtain ⟨i, hplace⟩ := List.mem_iff_getElem?.mp hmem
      obtain ⟨j, hkey, -⟩ := (h.entries c i).mpr ⟨i, rfl, hplace⟩
      exact habs j hkey
    rw [if_neg hmem]
    simp only [SQTable.get, hget]
    rfl

/-- A constant that is in the pool -/
theorem Pool.Holds.getConstant_mem {c : Literal} (hc : c ∈ cs) :
    getConstant H (some c) s = .ok (cs.idxOf c : ℤ) s := by
  have hget := h.get c
  rw [if_pos hc] at hget
  refine (bind_ok rfl).trans ?_
  rw [hget]
  rfl

/-- The next constant takes the next index. -/
theorem Pool.Holds.newSlot {c : Literal} (hc : c ∉ cs) :
    ∃ literals b, SQTable.newSlot H.hashObj SQTable.depth s.literals c s.nliterals =
        some (literals, b) ∧ (Pool.mk literals (s.nliterals + 1)).Holds H (cs ++ [c]) := by
  obtain ⟨literals, b, hnew, hup⟩ := h.inv.newSlot_spec c s.nliterals
  have hlen := h.nliterals
  refine ⟨literals, b, hnew, hup.inv, ?_, ?_, fun k v => ?_⟩
  · exact List.nodup_append.mpr ⟨h.nodup, List.nodup_singleton c, by
      rintro a ha b hb rfl
      exact hc (List.mem_singleton.mp hb ▸ ha)⟩
  · simp [hlen]
  · rw [hup.holds, h.entries]
    constructor
    · rintro (⟨rfl, rfl⟩ | ⟨-, i, rfl, hi⟩)
      · exact ⟨cs.length, hlen, by simp⟩
      · exact ⟨i, rfl, List.getElem?_append_left (List.getElem?_eq_some_iff.mp hi).1 ▸ hi⟩
    · rintro ⟨i, rfl, hi⟩
      rw [List.getElem?_append] at hi
      split_ifs at hi with hlt
      · refine .inr ⟨?_, i, rfl, hi⟩
        rintro rfl
        exact hc (List.mem_of_getElem? hi)
      · obtain ⟨hzero, heq⟩ := List.getElem?_eq_some_iff.mp hi
        rw [List.length_singleton] at hzero
        have hplace : i = cs.length := by omega
        subst hplace
        exact .inl ⟨by simpa using heq.symm, hlen.symm⟩

/-- A constant that is not in the pool yet -/
theorem Pool.Holds.getConstant_new {c : Literal} (hc : c ∉ cs) :
    ∃ s', s'.Holds H (cs ++ [c]) ∧ getConstant H (some c) s =
      if (cs.length : ℤ) + 1 > MAX_LITERALS then
        .error (.raised (.error "internal compiler error: too many literals")) s'
      else .ok (cs.length : ℤ) s' := by
  obtain ⟨literals, b, hnew, hheld⟩ := h.newSlot hc
  have hget := h.get c
  rw [if_neg hc] at hget
  refine ⟨_, hheld, (bind_ok rfl).trans ?_⟩
  rw [hget]
  dsimp only
  rw [hnew]
  refine (bind_ok rfl).trans ?_
  rw [h.nliterals]
  split_ifs <;> rfl

/-- The index that a constant got is its place. -/
theorem Pool.Holds.of_getConstant {c : Literal} {k : ℤ} {s' : Pool}
    (hrun : getConstant H (some c) s = .ok k s') :
    ∃ cs', s'.Holds H cs' ∧ cs <+: cs' ∧
      ((cs.length : ℤ) ≤ MAX_LITERALS → (cs'.length : ℤ) ≤ MAX_LITERALS) ∧
      ∃ n : ℕ, k = n ∧ cs'[n]? = some c := by
  by_cases hc : c ∈ cs
  · rw [h.getConstant_mem hc] at hrun
    cases hrun
    exact ⟨cs, h, List.prefix_rfl, id, _, rfl, List.getElem?_idxOf hc⟩
  · obtain ⟨s₁, hheld, hnew⟩ := h.getConstant_new hc
    rw [hnew] at hrun
    split_ifs at hrun
    · cases hrun
      refine ⟨cs ++ [c], hheld, List.prefix_append _ _, fun _ => ?_, _, rfl, by simp⟩
      rw [List.length_append, List.length_singleton]
      omega

omit h in
/-- `NewSlot` is called with null. -/
theorem getConstant_null :
    getConstant H none s = .error (.raised .assertion) s :=
  bind_ok rfl

end Holds

section Sequences

variable {s s' : Pool} {cs : List Literal}

/-- The indices of the calls are the places of their constants. -/
structure Indexed (cs' : List Literal) (consts : List Literal) (vals : List ℤ) : Prop where
  mem : ∀ c ∈ consts, c ∈ cs'
  vals : vals = consts.map fun c => (cs'.idxOf c : ℤ)

/-- Constants that are not null get their indices, as long as there are not too many. -/
theorem Pool.Holds.getConstants_spec (h : s.Holds H cs) (hbound : (cs.length : ℤ) ≤ MAX_LITERALS)
    (consts : List Literal) :
    (((cs ++ consts).toFinset.card : ℤ) ≤ MAX_LITERALS ∧ ∃ vals s' cs',
      getConstants H (consts.map some) s = .ok vals s' ∧ s'.Holds H cs' ∧ cs <+: cs' ∧
        Indexed cs' consts vals ∧ cs'.toFinset = (cs ++ consts).toFinset) ∨
    MAX_LITERALS < ((cs ++ consts).toFinset.card : ℤ) ∧ ∃ message s',
      getConstants H (consts.map some) s = .error (.raised (.error message)) s' := by
  induction consts generalizing s cs with
  | nil =>
    rw [List.append_nil, List.toFinset_card_of_nodup h.nodup]
    exact .inl ⟨hbound, [], s, cs, rfl, h, List.prefix_rfl, ⟨by simp, rfl⟩, rfl⟩
  | cons c rest ih =>
    by_cases hc : c ∈ cs
    · have hset : (cs ++ c :: rest).toFinset = (cs ++ rest).toFinset := by
        ext x
        simp only [List.mem_toFinset, List.mem_append, List.mem_cons]
        constructor
        · rintro (hx | rfl | hx)
          exacts [.inl hx, .inl hc, .inr hx]
        · rintro (hx | hx)
          exacts [.inl hx, .inr (.inr hx)]
      rw [hset]
      rcases ih h hbound with ⟨hcard, vals, s', cs', hok, hheld, hpre, hidx, hfin⟩ |
          ⟨hcard, message, s', herr⟩
      · refine .inl ⟨hcard, _, s', cs', (bind_ok (h.getConstant_mem hc)).trans (bind_ok hok), hheld,
          hpre, ⟨?_, ?_⟩, hfin⟩
        · exact List.forall_mem_cons.mpr ⟨hpre.subset hc, hidx.mem⟩
        · obtain ⟨more, rfl⟩ := hpre
          rw [List.map_cons, List.idxOf_append_of_mem hc, ← hidx.vals]
      · exact .inr ⟨hcard, message, s',
          (bind_ok (h.getConstant_mem hc)).trans (bind_error herr)⟩
    · obtain ⟨s₁, hheld, hrun⟩ := h.getConstant_new hc
      have hlen : (((cs ++ [c]).toFinset.card : ℕ) : ℤ) = cs.length + 1 := by
        rw [List.toFinset_card_of_nodup hheld.nodup, List.length_append, List.length_singleton]
        rfl
      have hsplit : cs ++ c :: rest = (cs ++ [c]) ++ rest := by simp
      rw [hsplit]
      by_cases hmax : (cs.length : ℤ) + 1 > MAX_LITERALS
      · rw [if_pos hmax] at hrun
        have hle : (cs ++ [c]).toFinset.card ≤ ((cs ++ [c]) ++ rest).toFinset.card := by
          rw [List.toFinset_append (l := cs ++ [c])]
          exact Finset.card_le_card Finset.subset_union_left
        exact .inr ⟨by omega, _, s₁, bind_error hrun⟩
      · rw [if_neg hmax] at hrun
        have hbound' : ((cs ++ [c]).length : ℤ) ≤ MAX_LITERALS := by
          rw [List.length_append, List.length_singleton]
          omega
        rcases ih hheld hbound' with ⟨hcard, vals, s', cs', hok, hheld', hpre, hidx, hfin⟩ |
            ⟨hcard, message, s', herr⟩
        · refine .inl ⟨hcard, _, s', cs', (bind_ok hrun).trans (bind_ok hok), hheld',
            (List.prefix_append cs [c]).trans hpre, ⟨?_, ?_⟩, hfin⟩
          · exact List.forall_mem_cons.mpr ⟨hpre.subset (by simp), hidx.mem⟩
          · obtain ⟨more, rfl⟩ := hpre
            rw [List.map_cons, List.idxOf_append_of_mem (by simp), List.idxOf_append_of_notMem hc,
              ← hidx.vals]
            simp
        · exact .inr ⟨hcard, message, s', (bind_ok hrun).trans (bind_error herr)⟩

/-- The calls after one that fails are not made. -/
theorem getConstants_append_error {pre : List (Option Literal)} (post : List (Option Literal))
    {e : Programs.Stop PoolError} (h : getConstants H pre s = .error e s') :
    getConstants H (pre ++ post) s = .error e s' := by
  induction pre generalizing s with
  | nil => cases h
  | cons cons rest ih =>
    cases hcons : getConstant H cons s with
    | error e₁ s₁ =>
      have hleft : getConstants H (cons :: rest) s = .error e₁ s₁ := bind_error hcons
      rw [hleft] at h
      cases h
      exact bind_error hcons
    | ok val s₁ =>
      refine (bind_ok hcons).trans (bind_error (ih ?_))
      cases hrest : getConstants H rest s₁ with
      | ok vals s₂ =>
        have hleft : getConstants H (cons :: rest) s = .ok (val :: vals) s₂ :=
          (bind_ok hcons).trans (bind_ok hrest)
        rw [hleft] at h
        cases h
      | error e₂ s₂ =>
        have hleft : getConstants H (cons :: rest) s = .error e₂ s₂ :=
          (bind_ok hcons).trans (bind_error hrest)
        exact hleft.symm.trans h

/-- The first null -/
theorem getConstants_append_null {pre : List (Option Literal)} (post : List (Option Literal))
    {vals : List ℤ} (h : getConstants H pre s = .ok vals s') :
    getConstants H (pre ++ none :: post) s = .error (.raised .assertion) s' := by
  induction pre generalizing s vals with
  | nil =>
    cases h
    exact bind_error getConstant_null
  | cons cons rest ih =>
    obtain ⟨val, s₁, hcons, h⟩ := exists_of_bind_ok h
    obtain ⟨vals, s₂, hrest, h⟩ := exists_of_bind_ok h
    cases h
    exact (bind_ok hcons).trans (bind_error (ih hrest))

end Sequences

section Prototypes

variable {s : Pool} {cs : List Literal}

/-- Every entry ends at the place that is its value. -/
theorem foldlM_storeLiteral (entries : List (Literal × ℤ)) (literals : List (Option Literal))
    (hlen : literals.length = cs.length)
    (hentries : ∀ k v, (k, v) ∈ entries → ∃ i : ℕ, v = i ∧ cs[i]? = some k) :
    ∃ literals', entries.foldlM storeLiteral literals = some literals' ∧
      literals'.length = cs.length ∧ ∀ (i : ℕ) c, cs[i]? = some c →
        (c, (i : ℤ)) ∈ entries ∨ literals[i]? = some (some c) →
          literals'[i]? = some (some c) := by
  induction entries generalizing literals with
  | nil =>
    refine ⟨literals, rfl, hlen, fun i c _ hplace => ?_⟩
    rcases hplace with hmem | hold
    exacts [(List.not_mem_nil hmem).elim, hold]
  | cons entry rest ih =>
    obtain ⟨k, v⟩ := entry
    obtain ⟨j, rfl, hj⟩ := hentries k v List.mem_cons_self
    have hlt : j < literals.length := hlen ▸ (List.getElem?_eq_some_iff.mp hj).1
    have hstore : storeLiteral literals (k, (j : ℤ)) = some (literals.set j (some k)) := by
      rw [storeLiteral, if_pos ⟨by omega, by omega⟩]
      rfl
    obtain ⟨literals', hfold, hlen', hget⟩ := ih (literals.set j (some k))
      (by rw [List.length_set, hlen])
      (fun k' v' hmem => hentries k' v' (List.mem_cons_of_mem _ hmem))
    refine ⟨literals', ?_, hlen', fun i c hc hplace => hget i c hc ?_⟩
    · rw [List.foldlM_cons, hstore]
      exact hfold
    · by_cases hij : i = j
      · subst hij
        have hkc : k = c := Option.some.inj (hj.symm.trans hc)
        exact .inr (by rw [hkc, List.getElem?_set_self hlt])
      · rcases hplace with hmem | hold
        · rcases List.mem_cons.mp hmem with heq | hmem
          · exact absurd (Int.ofNat.inj (Prod.mk.inj heq).2) hij
          · exact .inl hmem
        · exact .inr (by rw [List.getElem?_set_ne (Ne.symm hij), hold])

/-- The prototype has the constants in the order of their indices. -/
theorem Pool.Holds.buildProto (h : s.Holds H cs) : s.buildProto = some (cs.map some) := by
  obtain ⟨entries, hiter, -, hmem⟩ := h.inv.toChained.iterate_spec id
  have hplaces : ∀ k v, (k, v) ∈ entries ↔ ∃ i : ℕ, v = i ∧ cs[i]? = some k := by
    intro k v
    rw [hmem, ← h.entries]
    exact ⟨fun ⟨w, hw, hv⟩ => hv ▸ hw, fun hv => ⟨v, hv, rfl⟩⟩
  obtain ⟨literals, hfold, hlen, hget⟩ := foldlM_storeLiteral entries
    (List.replicate s.nliterals.toNat none) (by simp [h.nliterals])
    fun k v hkv => (hplaces k v).mp hkv
  have hliterals : literals = cs.map some := by
    refine List.ext_getElem? fun i => ?_
    rw [List.getElem?_map]
    cases hc : cs[i]? with
    | none =>
      rw [List.getElem?_eq_none_iff] at hc
      rw [List.getElem?_eq_none_iff.mpr (by omega)]
      rfl
    | some c => exact hget i c hc (.inl ((hplaces c i).mpr ⟨i, rfl, hc⟩))
  rw [Pool.buildProto, hiter, ← hliterals]
  exact hfold

end Prototypes

/-- What the indices of the calls have to be, in the pool after the calls -/
structure Bijective (calls : List (Option Literal)) (vals : List ℤ) (s : Pool) : Prop where
  length : vals.length = calls.length
  index_eq_iff : ∀ i j, i < calls.length → j < calls.length →
    (vals[i]? = vals[j]? ↔ calls[i]? = calls[j]?)
  handed_out : ∀ v, v ∈ vals ↔ 0 ≤ v ∧ v < s.nliterals
  proto : ∃ literals, s.buildProto = some literals ∧ (literals.length : ℤ) = s.nliterals ∧
    ∀ (i : ℕ) v, vals[i]? = some v → literals[v.toNat]? = calls[i]?

/-- The constants have their indices, or there are too many of them. -/
def Lawful (H : Hashes) (calls : List (Option Literal)) : Prop :=
  match getConstants H calls Pool.init with
  | .ok vals s => Bijective calls vals s
  | .error e _ => ∃ message, e = .raised (.error message)

/-- Null is asked for only where there are too many constants before it. -/
def NullFree (calls : List (Option Literal)) : Prop :=
  ∀ (consts : List Literal) (post : List (Option Literal)),
    calls = consts.map some ++ none :: post → MAX_LITERALS < (consts.toFinset.card : ℤ)

private theorem Indexed.bijective {s : Pool} {cs consts : List Literal} {vals : List ℤ}
    (h : Indexed cs consts vals) (hheld : s.Holds H cs) (hset : cs.toFinset = consts.toFinset) :
    Bijective (consts.map some) vals s := by
  have hval : ∀ i : ℕ, vals[i]? = consts[i]?.map fun c => (cs.idxOf c : ℤ) := by
    intro i
    rw [h.vals, List.getElem?_map]
  have hmem : ∀ c, c ∈ cs ↔ c ∈ consts := by
    intro c
    rw [← List.mem_toFinset, hset, List.mem_toFinset]
  have hidx : ∀ c ∈ consts, cs[cs.idxOf c]? = some c := by
    intro c hc
    exact List.getElem?_idxOf (h.mem c hc)
  refine ⟨by rw [h.vals, List.length_map, List.length_map], fun i j hi hj => ?_, fun v => ?_,
    cs.map some, hheld.buildProto, by rw [List.length_map, hheld.nliterals], fun i v hv => ?_⟩
  · rw [List.length_map] at hi hj
    have hci := List.getElem?_eq_getElem hi
    have hcj := List.getElem?_eq_getElem hj
    rw [hval, hval, List.getElem?_map, List.getElem?_map, hci, hcj]
    simp only [Option.map_some, Option.some.injEq]
    constructor
    · intro heq
      have hleft := hidx _ (List.getElem_mem hi)
      rw [Int.ofNat.inj heq, hidx _ (List.getElem_mem hj)] at hleft
      exact (Option.some.inj hleft).symm
    · intro heq
      rw [heq]
  · rw [h.vals, hheld.nliterals, List.mem_map]
    constructor
    · rintro ⟨c, hc, rfl⟩
      have hlt := List.idxOf_lt_length_of_mem (h.mem c hc)
      exact ⟨by omega, by omega⟩
    · rintro ⟨hpos, hlt⟩
      obtain ⟨n, rfl⟩ := Int.eq_ofNat_of_zero_le hpos
      have hn : n < cs.length := by omega
      refine ⟨cs[n], (hmem _).mp (List.getElem_mem hn), ?_⟩
      rw [hheld.nodup.idxOf_getElem]
  · rw [hval] at hv
    obtain ⟨c, hc, rfl⟩ := Option.map_eq_some_iff.mp hv
    rw [List.getElem?_map, List.getElem?_map, hc, Int.toNat_natCast, hidx c (List.mem_of_getElem? hc)]

/-- Calls without null -/
theorem lawful_some (H : Hashes) (consts : List Literal) : Lawful H (consts.map some) := by
  rw [Lawful]
  rcases (holds_init (H := H)).getConstants_spec (by decide) consts with
    ⟨-, vals, s, cs, hok, hheld, -, hidx, hset⟩ | ⟨-, message, s, herr⟩
  · rw [hok]
    exact hidx.bijective hheld hset
  · rw [herr]
    exact ⟨message, rfl⟩

/-- Null gets no index, unless there are too many constants before it. -/
theorem lawful_null (H : Hashes) (consts : List Literal) (post : List (Option Literal)) :
    Lawful H (consts.map some ++ none :: post) ↔ MAX_LITERALS < (consts.toFinset.card : ℤ) := by
  rw [Lawful]
  rcases (holds_init (H := H)).getConstants_spec (by decide) consts with
    ⟨hcard, vals, s, cs, hok, -⟩ | ⟨hcard, message, s, herr⟩
  · rw [List.nil_append] at hcard
    rw [getConstants_append_null post hok]
    refine iff_of_false ?_ (by omega)
    rintro ⟨message, heq⟩
    cases heq
  · rw [List.nil_append] at hcard
    rw [getConstants_append_error (none :: post) herr]
    exact iff_of_true ⟨message, rfl⟩ hcard

private theorem exists_first_null (calls : List (Option Literal)) :
    (∃ consts : List Literal, calls = consts.map some) ∨
      ∃ (consts : List Literal) (post : List (Option Literal)),
        calls = consts.map some ++ none :: post := by
  induction calls with
  | nil => exact .inl ⟨[], rfl⟩
  | cons cons rest ih =>
    cases cons with
    | none => exact .inr ⟨[], rest, rfl⟩
    | some c =>
      rcases ih with ⟨consts, rfl⟩ | ⟨consts, post, rfl⟩
      · exact .inl ⟨c :: consts, rfl⟩
      · exact .inr ⟨c :: consts, post, rfl⟩

theorem lawful_iff_nullFree (H : Hashes) (calls : List (Option Literal)) :
    Lawful H calls ↔ NullFree calls := by
  constructor
  · rintro hlawful consts post rfl
    exact (lawful_null H consts post).mp hlawful
  · intro hfree
    rcases exists_first_null calls with ⟨consts, rfl⟩ | ⟨consts, post, rfl⟩
    · exact lawful_some H consts
    · exact (lawful_null H consts post).mpr (hfree consts post rfl)

end Squirt.Literals
