import Mathlib.Data.BitVec
import Mathlib.Data.List.Basic

/-!
# Type masks of native functions

`CompileTypemask` reads the types that a native function declares for its parameters, and
`CallNative` checks the arguments against them.
-/

namespace Squirt.Typemask

variable {w : ℕ}

/-- The letters of types with their masks -/
def letters : List (Char × ℕ) :=
  [('o', 0x00000001), ('i', 0x00000002), ('f', 0x00000004), ('n', 0x00000006), ('s', 0x00000010),
    ('t', 0x00000020), ('a', 0x00000040), ('u', 0x00000080), ('c', 0x00000300), ('b', 0x00000008),
    ('g', 0x00000400), ('p', 0x00000800), ('v', 0x00001000), ('x', 0x00008000), ('y', 0x00004000),
    ('r', 0x00010000)]

def maskOf (c : Char) : Option (BitVec w) := (letters.lookup c).map (BitVec.ofNat w)

/-- The loop of `CompileTypemask`, with the text that is left, its `mask` and its `res` -/
def compileLoop : List Char → BitVec w → List (BitVec w) → Option (List (BitVec w))
  | [], _, res => some res
  | c :: rest, mask, res =>
    if c = '.' then compileLoop rest 0#w (res ++ [-1#w])
    else if c = ' ' then compileLoop rest mask res
    else
      match maskOf c with
      | none => none
      | some m =>
        match rest with
        | '|' :: rest => if rest = [] then none else compileLoop rest (mask ||| m) res
        | rest => compileLoop rest 0#w (res ++ [mask ||| m])

def CompileTypemask (typemask : List Char) : Option (List (BitVec w)) := compileLoop typemask 0#w []

/-- The check of `CallNative`, with what `Raise_ParamTypeError` is told of the first parameter
that fails it -/
def checkTypes (i : ℕ) : List (BitVec w) → List (BitVec w) → Option (ℕ × BitVec w × BitVec w)
  | mask :: tc, type :: types =>
    if mask ≠ -1#w ∧ type &&& mask = 0#w then some (i, mask, type) else checkTypes (i + 1) tc types
  | _, _ => none

/-! ### What type masks mean -/

def IsLetter (c : Char) : Prop := (letters.lookup c).isSome

instance : DecidablePred IsLetter := fun _ => inferInstanceAs (Decidable (_ = true))

/-- A text begins with the letters of a group, that `|` separates; spaces before a letter are
ignored. The group ends with a letter that no `|` follows, or with a dot. -/
inductive Alternation : List Char → List Char → List Char → Prop
  | any (rest : List Char) : Alternation ('.' :: rest) ['.'] rest
  | last {c : Char} {rest : List Char} (hc : IsLetter c) (hbar : rest.head? ≠ some '|') :
    Alternation (c :: rest) [c] rest
  | more {c : Char} {s g rest : List Char} (hc : IsLetter c) (h : Alternation s g rest) :
    Alternation (c :: '|' :: s) (c :: g) rest
  | space {s g rest : List Char} (h : Alternation s g rest) : Alternation (' ' :: s) g rest

/-- A text consists of groups. -/
inductive Groups : List Char → List (List Char) → Prop
  | spaces (k : ℕ) : Groups (List.replicate k ' ') []
  | group {s g rest : List Char} {gs : List (List Char)} (h : Alternation s g rest)
    (hrest : Groups rest gs) : Groups s (g :: gs)

/-- The mask of a group: the union of the types of its letters, a dot meaning any -/
def union : List Char → BitVec w
  | [] => 0#w
  | c :: g => (if c = '.' then -1#w else (maskOf c).getD 0#w) ||| union g

/-- A group admits a type: one of its letters does. -/
def Admits (g : List Char) (type : BitVec w) : Prop :=
  ∃ c ∈ g, c = '.' ∨ ∃ m, maskOf c = some m ∧ type &&& m ≠ 0#w

/-- What is claimed of a type mask: it is refused, or it consists of groups, in order, and the
arguments are checked against each of them -/
def DropsNothing (w : ℕ) (typemask : List Char) : Prop :=
  CompileTypemask (w := w) typemask = none ∨
    ∃ gs, Groups typemask gs ∧ CompileTypemask (w := w) typemask = some (gs.map union) ∧
      ∀ types : List (BitVec w), 0#w ∉ types →
        (checkTypes 0 (gs.map union) types = none ↔ ∀ p ∈ gs.zip types, Admits p.1 p.2)

/-- A text ends within a group: `|` and spaces follow its last letter. -/
inductive Unfinished : List Char → Prop
  | bar {c : Char} (hc : IsLetter c) (k : ℕ) : Unfinished (c :: '|' :: List.replicate (k + 1) ' ')
  | more {c : Char} {s : List Char} (hc : IsLetter c) (h : Unfinished s) : Unfinished (c :: '|' :: s)
  | space {s : List Char} (h : Unfinished s) : Unfinished (' ' :: s)

/-- Groups, and then a group that is not finished -/
inductive EndsInGroup : List Char → Prop
  | unfinished {s : List Char} (h : Unfinished s) : EndsInGroup s
  | group {s g rest : List Char} (h : Alternation s g rest) (hrest : EndsInGroup rest) :
    EndsInGroup s

/-! ### What the loop accepts -/

variable {s g rest : List Char} {gs : List (List Char)} {mask : BitVec w} {res r : List (BitVec w)}

/-- What a text is where the loop ends with a result -/
def Described (s : List Char) (mask : BitVec w) (res r : List (BitVec w)) : Prop :=
  (∃ k, s = List.replicate k ' ' ∧ r = res) ∨
    (∃ g rest gs, Alternation s g rest ∧ Groups rest gs ∧
      r = res ++ (mask ||| union g) :: gs.map union) ∨
    EndsInGroup s

/-- Between groups, what is left consists of groups. -/
theorem Described.groups (h : Described s 0#w res r) :
    (∃ gs, Groups s gs ∧ r = res ++ gs.map union) ∨ EndsInGroup s := by
  rcases h with ⟨k, rfl, rfl⟩ | ⟨g, rest, gs, halt, hrest, rfl⟩ | hend
  · exact .inl ⟨[], .spaces k, (List.append_nil _).symm⟩
  · refine .inl ⟨g :: gs, .group halt hrest, ?_⟩
    rw [BitVec.zero_or, List.map_cons]
  · exact .inr hend

/-- A group ends here. -/
theorem Described.ofGroup (hs : Alternation s g rest)
    (hr : Described rest 0#w (res ++ [mask ||| union g]) r) :
    Described s mask res r := by
  cases hr.groups with
  | inl h =>
    obtain ⟨gs, hgs, rfl⟩ := h
    refine .inr (.inl ⟨g, rest, gs, hs, hgs, ?_⟩)
    rw [List.append_assoc, List.singleton_append]
  | inr hend => exact .inr (.inr (.group hs hend))

theorem union_any (mask : BitVec w) : mask ||| union ['.'] = -1#w := by
  rw [union, if_pos rfl, BitVec.neg_one_eq_allOnes, BitVec.allOnes_or, BitVec.or_allOnes]

theorem isLetter_of_maskOf {c : Char} {m : BitVec w} (h : maskOf c = some m) : IsLetter c := by
  rw [maskOf, Option.map_eq_some_iff] at h
  obtain ⟨n, hn, -⟩ := h
  rw [IsLetter, hn]
  rfl

theorem not_isLetter_dot : ¬IsLetter '.' := by decide

theorem union_letter {c : Char} {m : BitVec w} (h : maskOf c = some m) (g : List Char) :
    union (c :: g) = m ||| union g := by
  have hdot : c ≠ '.' := by
    rintro rfl
    exact not_isLetter_dot (isLetter_of_maskOf h)
  rw [union, if_neg hdot, h]
  rfl

private theorem described_of_compileLoop (h : compileLoop s mask res = some r) :
    Described s mask res r := by
  fun_induction compileLoop s mask res with
  | case1 mask res =>
    cases h
    exact .inl ⟨0, rfl, rfl⟩
  | case2 rest mask res ih =>
    refine .ofGroup (.any rest) ?_
    rw [union_any]
    exact ih h
  | case3 rest mask res hdot ih =>
    rcases ih h with ⟨k, rfl, rfl⟩ | ⟨g, rest', gs, halt, hrest, rfl⟩ | hend
    · exact .inl ⟨k + 1, rfl, rfl⟩
    · exact .inr (.inl ⟨g, rest', gs, .space halt, hrest, rfl⟩)
    · refine .inr (.inr ?_)
      cases hend with
      | unfinished h => exact .unfinished (.space h)
      | group halt hrest => exact .group (.space halt) hrest
  | case4 => cases h
  | case5 => cases h
  | case6 c mask res hdot hspace rest m hrest hm ih =>
    have hc := isLetter_of_maskOf hm
    rcases ih h with ⟨k, rfl, rfl⟩ | ⟨g, rest', gs, halt, hgs, rfl⟩ | hend
    · refine .inr (.inr (.unfinished ?_))
      cases k with
      | zero => exact absurd rfl hrest
      | succ k => exact .bar hc k
    · refine .inr (.inl ⟨c :: g, rest', gs, .more hc halt, hgs, ?_⟩)
      rw [union_letter hm, BitVec.or_assoc]
    · refine .inr (.inr ?_)
      cases hend with
      | unfinished h => exact .unfinished (.more hc h)
      | group halt hrest' => exact .group (.more hc halt) hrest'
  | case7 c mask res hdot hspace rest m hbar hm ih =>
    have hunion : union [c] = m := (union_letter hm []).trans BitVec.or_zero
    refine .ofGroup (.last (isLetter_of_maskOf hm) ?_) ?_
    · intro hhead
      cases rest with
      | nil => cases hhead
      | cons d rest =>
        obtain rfl : d = '|' := Option.some.inj hhead
        exact hbar rest rfl
    · rw [hunion]
      exact ih h

/-! ### What the loop does with groups -/

theorem IsLetter.ne_dot {c : Char} (hc : IsLetter c) : c ≠ '.' := by
  rintro rfl
  exact not_isLetter_dot hc

theorem IsLetter.ne_space {c : Char} (hc : IsLetter c) : c ≠ ' ' := by
  rintro rfl
  exact absurd hc (by decide)

theorem IsLetter.maskOf {c : Char} (hc : IsLetter c) : ∃ m : BitVec w, maskOf c = some m := by
  obtain ⟨n, hn⟩ := Option.isSome_iff_exists.mp hc
  exact ⟨_, by rw [Typemask.maskOf, hn]; rfl⟩

private theorem compileLoop_spaces (k : ℕ) : compileLoop (List.replicate k ' ') mask res = some res
    := by
  induction k with
  | zero => rfl
  | succ k ih =>
    rw [List.replicate_succ, compileLoop, if_neg (by decide), if_pos rfl]
    exact ih

theorem compileLoop_space : compileLoop (' ' :: s) mask res = compileLoop s mask res := by
  rw [compileLoop, if_neg (by decide), if_pos rfl]

theorem compileLoop_more {c : Char} {m : BitVec w} (hm : maskOf c = some m) (hs : s ≠ []) :
    compileLoop (c :: '|' :: s) mask res = compileLoop s (mask ||| m) res := by
  have hc := isLetter_of_maskOf hm
  rw [compileLoop, if_neg hc.ne_dot, if_neg hc.ne_space, hm]
  exact if_neg hs

private theorem compileLoop_last {c : Char} {m : BitVec w} (hm : maskOf c = some m)
    (hbar : rest.head? ≠ some '|') :
    compileLoop (c :: rest) mask res = compileLoop rest 0#w (res ++ [mask ||| m]) := by
  have hc := isLetter_of_maskOf hm
  rw [compileLoop, if_neg hc.ne_dot, if_neg hc.ne_space, hm]
  cases rest with
  | nil => rfl
  | cons d rest =>
    have hd : d ≠ '|' := fun heq => hbar (congrArg some heq)
    dsimp only
    split
    · rename_i heq
      exact absurd (List.cons.inj heq).1 hd
    · rfl

theorem Alternation.ne_nil (h : Alternation s g rest) : s ≠ [] := by
  cases h with
  | any => exact List.cons_ne_nil _ _
  | last => exact List.cons_ne_nil _ _
  | more => exact List.cons_ne_nil _ _
  | space => exact List.cons_ne_nil _ _

theorem Alternation.compileLoop (h : Alternation s g rest) :
    compileLoop s mask res = compileLoop rest 0#w (res ++ [mask ||| union g]) := by
  induction h generalizing mask with
  | any rest =>
    rw [union_any, Typemask.compileLoop, if_pos rfl]
  | last hc hbar =>
    obtain ⟨m, hm⟩ := hc.maskOf (w := w)
    have hunion : union [_] = m := (union_letter hm []).trans BitVec.or_zero
    rw [compileLoop_last hm hbar, hunion]
  | more hc h ih =>
    obtain ⟨m, hm⟩ := hc.maskOf (w := w)
    rw [compileLoop_more hm h.ne_nil, ih, union_letter hm, BitVec.or_assoc]
  | space h ih => rw [compileLoop_space, ih]

theorem Unfinished.ne_nil (h : Unfinished s) : s ≠ [] := by
  cases h with
  | bar => exact List.cons_ne_nil _ _
  | more => exact List.cons_ne_nil _ _
  | space => exact List.cons_ne_nil _ _

/-- The loop ends with the groups before the unfinished one. -/
theorem Unfinished.compileLoop (h : Unfinished s) : compileLoop s mask res = some res := by
  induction h generalizing mask with
  | bar hc k =>
    obtain ⟨m, hm⟩ := hc.maskOf (w := w)
    have hne : List.replicate (k + 1) ' ' ≠ [] := List.cons_ne_nil _ _
    rw [compileLoop_more hm hne, compileLoop_spaces]
  | more hc h ih =>
    obtain ⟨m, hm⟩ := hc.maskOf (w := w)
    rw [compileLoop_more hm h.ne_nil, ih]
  | space h ih => rw [compileLoop_space, ih]

theorem EndsInGroup.compileLoop (h : EndsInGroup s) (mask : BitVec w) (res : List (BitVec w)) :
    ∃ r, compileLoop s mask res = some r := by
  induction h generalizing mask res with
  | unfinished h => exact ⟨res, h.compileLoop⟩
  | group h hrest ih =>
    obtain ⟨r, hr⟩ := ih 0#w (res ++ [mask ||| union _])
    exact ⟨r, h.compileLoop.trans hr⟩

/-! ### A text that ends in a group does not consist of groups -/

theorem Alternation.exists_ne_space (h : Alternation s g rest) : ∃ c ∈ s, c ≠ ' ' := by
  induction h with
  | any => exact ⟨'.', List.mem_cons_self, by decide⟩
  | last hc => exact ⟨_, List.mem_cons_self, hc.ne_space⟩
  | more hc => exact ⟨_, List.mem_cons_self, hc.ne_space⟩
  | space h ih =>
    obtain ⟨c, hc, hne⟩ := ih
    exact ⟨c, List.mem_cons_of_mem _ hc, hne⟩

theorem Unfinished.exists_ne_space (h : Unfinished s) : ∃ c ∈ s, c ≠ ' ' := by
  induction h with
  | bar hc => exact ⟨_, List.mem_cons_self, hc.ne_space⟩
  | more hc => exact ⟨_, List.mem_cons_self, hc.ne_space⟩
  | space h ih =>
    obtain ⟨c, hc, hne⟩ := ih
    exact ⟨c, List.mem_cons_of_mem _ hc, hne⟩

theorem ne_spaces (h : ∃ c ∈ s, c ≠ ' ') (k : ℕ) : s ≠ List.replicate k ' ' := by
  rintro rfl
  obtain ⟨c, hc, hne⟩ := h
  exact hne (List.eq_of_mem_replicate hc)

private theorem Unfinished.not_alternation (h : Unfinished s) : ¬Alternation s g rest := by
  intro halt
  induction h generalizing g with
  | bar hc k =>
    cases halt with
    | any => exact hc.ne_dot rfl
    | last _ hbar => exact hbar rfl
    | space => exact hc.ne_space rfl
    | more _ halt =>
      exact ne_spaces halt.exists_ne_space (k + 1) rfl
  | more hc h ih =>
    cases halt with
    | any => exact hc.ne_dot rfl
    | last _ hbar => exact hbar rfl
    | space => exact hc.ne_space rfl
    | more _ halt => exact ih halt
  | space h ih =>
    cases halt with
    | last hc => exact hc.ne_space rfl
    | more hc => exact hc.ne_space rfl
    | space halt => exact ih halt

/-- The first group of a text, and what follows it, are determined. -/
theorem Alternation.unique {g' rest' : List Char} (h : Alternation s g rest)
    (h' : Alternation s g' rest') : rest = rest' := by
  induction h generalizing g' with
  | any =>
    cases h' with
    | any => rfl
    | last hc => exact absurd rfl hc.ne_dot
    | more hc => exact absurd rfl hc.ne_dot
  | last hc hbar =>
    cases h' with
    | any => exact absurd rfl hc.ne_dot
    | last => rfl
    | more => exact absurd rfl hbar
    | space => exact absurd rfl hc.ne_space
  | more hc h ih =>
    cases h' with
    | any => exact absurd rfl hc.ne_dot
    | last _ hbar => exact absurd rfl hbar
    | more _ h' => exact ih h'
    | space => exact absurd rfl hc.ne_space
  | space h ih =>
    cases h' with
    | last hc => exact absurd rfl hc.ne_space
    | more hc => exact absurd rfl hc.ne_space
    | space h' => exact ih h'

private theorem EndsInGroup.not_groups (h : EndsInGroup s) (gs : List (List Char)) : ¬Groups s gs
    := by
  intro hgs
  induction h generalizing gs with
  | unfinished h =>
    cases hgs with
    | spaces k => exact ne_spaces h.exists_ne_space k rfl
    | group halt => exact h.not_alternation halt
  | group h hrest ih =>
    cases hgs with
    | spaces k => exact ne_spaces h.exists_ne_space k rfl
    | group halt hgs =>
      rw [h.unique halt] at ih
      exact ih _ hgs

/-! ### The check of the arguments -/

variable {type : BitVec w}

private theorem and_or_eq_zero_iff {a b : BitVec w} :
    type &&& (a ||| b) = 0#w ↔ type &&& a = 0#w ∧ type &&& b = 0#w := by
  rw [BitVec.and_or_distrib_left, BitVec.or_eq_zero_iff]

/-- The mask of a group meets the types that the group admits. -/
theorem and_union_ne_zero_iff (htype : type ≠ 0#w) (g : List Char) :
    type &&& union g ≠ 0#w ↔ Admits g type := by
  induction g with
  | nil =>
    rw [union, BitVec.and_zero]
    refine iff_of_false (fun h => h rfl) ?_
    rintro ⟨c, hc, -⟩
    cases hc
  | cons c g ih =>
    have hhead : type &&& (if c = '.' then -1#w else (maskOf c).getD 0#w) ≠ 0#w ↔
        c = '.' ∨ ∃ m, maskOf c = some m ∧ type &&& m ≠ 0#w := by
      split
      · rename_i hdot
        rw [BitVec.neg_one_eq_allOnes, BitVec.and_allOnes]
        exact iff_of_true htype (.inl hdot)
      · rename_i hdot
        rw [or_iff_right hdot]
        cases maskOf c with
        | none =>
          refine iff_of_false (fun h => h BitVec.and_zero) ?_
          rintro ⟨m, hm, -⟩
          cases hm
        | some m =>
          refine ⟨fun h => ⟨m, rfl, h⟩, ?_⟩
          rintro ⟨m', hm, h⟩
          cases hm
          exact h
    rw [union, Ne, and_or_eq_zero_iff, not_and_or, ← Ne, ← Ne, hhead, ih]
    simp only [Admits, List.mem_cons, exists_eq_or_imp]

private theorem checkTypes_eq_none_iff (i : ℕ) (gs : List (List Char)) (types : List (BitVec w))
    (htypes : 0#w ∉ types) :
    checkTypes i (gs.map union) types = none ↔ ∀ p ∈ gs.zip types, Admits p.1 p.2 := by
  induction gs generalizing i types with
  | nil =>
    refine iff_of_true ?_ fun p hp => by cases hp
    cases types with
    | nil => rfl
    | cons => rfl
  | cons g gs ih =>
    cases types with
    | nil => exact iff_of_true rfl fun p hp => by cases hp
    | cons type types =>
      rw [List.mem_cons, not_or] at htypes
      have hadmits := and_union_ne_zero_iff (Ne.symm htypes.1) g
      rw [List.map_cons, checkTypes, List.zip_cons_cons, List.forall_mem_cons, ← hadmits]
      have hrest := ih (i + 1) types htypes.2
      split
      · rename_i hfails
        exact iff_of_false (Option.some_ne_none _) fun h => h.1 hfails.2
      · rename_i hpasses
        rw [hrest]
        refine (and_iff_right fun hzero => hpasses ⟨fun hall => ?_, hzero⟩).symm
        rw [hall, BitVec.neg_one_eq_allOnes, BitVec.and_allOnes] at hzero
        exact htypes.1 hzero.symm

theorem EndsInGroup.drops (h : EndsInGroup s) : ¬DropsNothing w s := by
  intro hdrops
  obtain ⟨r, hr⟩ := h.compileLoop 0#w []
  rcases hdrops with hnone | ⟨gs, hgs, -⟩
  · rw [CompileTypemask, hr] at hnone
    cases hnone
  · exact h.not_groups gs hgs

/-- Nothing of a type mask is dropped unless it ends in a group that is not finished. -/
theorem typemask_drops_nothing_iff (w : ℕ) (typemask : List Char) :
    DropsNothing w typemask ↔ ¬EndsInGroup typemask := by
  refine ⟨fun hdrops hend => hend.drops hdrops, fun hend => ?_⟩
  rw [DropsNothing, CompileTypemask]
  cases hr : compileLoop typemask 0#w [] with
  | none => exact .inl rfl
  | some r =>
    obtain ⟨gs, hgs, rfl⟩ := (described_of_compileLoop hr).groups.resolve_right hend
    exact .inr ⟨gs, hgs, rfl, fun types htypes => checkTypes_eq_none_iff 0 gs types htypes⟩

/-- The string that is asked for here is not checked. -/
theorem typemask_drops_string : ¬DropsNothing 32 ['s', '|', ' '] :=
  EndsInGroup.drops (.unfinished (.bar (by decide) 0))

end Squirt.Typemask
