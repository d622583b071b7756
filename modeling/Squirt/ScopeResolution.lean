import Mathlib.Data.List.Forall2
import Mathlib.Data.List.Infix
import Squirt.LexicalScopes

/-!
# What names stand for

The operand of every identifier stands for the innermost declaration that is visible, as long as
every function has a parameter and no declaration is made while a temporary of the same block is
in use.
-/

namespace Squirt.Scoping

section Names

/-- The named registers, the latest first. -/
def named (names : List (Option String)) : List (String × ℕ) :=
  (names.zipIdx.filterMap fun (name, pos) => name.map (·, pos)).reverse

theorem named_concat (names : List (Option String)) (name : Option String) :
    named (names ++ [name]) = (name.map (·, names.length)).toList ++ named names := by
  cases name <;> simp [named, List.zipIdx_append]

variable (fs : SQFuncState)

/-- The names in the registers -/
def SQFuncState.names : List (Option String) := fs.vlocals.map (·.name)

private theorem searchLocal_eq (name : String) {n : ℕ} (hn : n ≤ fs.vlocals.length) :
    SQFuncState.searchLocal fs.vlocals name n = (named (fs.names.take n)).lookup name := by
  induction n with
  | zero => rfl
  | succ n ih =>
    obtain ⟨lvi, hlvi⟩ : ∃ lvi, fs.vlocals[n]? = some lvi := ⟨_, List.getElem?_eq_getElem hn⟩
    have htake : fs.names.take (n + 1) = fs.names.take n ++ [lvi.name] := by
      rw [List.take_add_one, SQFuncState.names, List.getElem?_map, hlvi]
      rfl
    have hlen : (fs.names.take n).length = n := by
      simp only [SQFuncState.names, List.length_take, List.length_map]
      omega
    rw [htake, named_concat, hlen, SQFuncState.searchLocal, hlvi, ih (by omega)]
    obtain ⟨_ | lname, outer⟩ := lvi
    · rfl
    · simp only [Option.map_some, Option.toList_some, List.singleton_append, List.lookup_cons]
      by_cases h : lname = name
      · simp [h]
      · have hne : (name == lname) = false := by simpa using Ne.symm h
        rw [if_neg h, hne]

/-- `GetLocalVariable` finds the latest of the names in the registers. -/
theorem getLocalVariable_eq (name : String) :
    fs.getLocalVariable name = (named fs.names).lookup name := by
  have hlen : fs.names.length = fs.vlocals.length := List.length_map _
  rw [SQFuncState.getLocalVariable, searchLocal_eq fs name le_rfl, ← hlen, List.take_length]

/-- The register that is found has the name. -/
theorem names_getElem?_of_lookup {names : List (Option String)} {name : String} {pos : ℕ}
    (h : (named names).lookup name = some pos) : names[pos]? = some (some name) := by
  obtain ⟨l₁, l₂, hsplit, -⟩ := List.lookup_eq_some_iff.mp h
  have hmem : (name, pos) ∈ named names := by
    rw [hsplit]
    exact List.mem_append_right _ List.mem_cons_self
  obtain ⟨⟨name', pos'⟩, hzip, hmap⟩ := List.mem_filterMap.mp (List.mem_reverse.mp hmem)
  obtain ⟨_, rfl, heq⟩ := Option.map_eq_some_iff.mp hmap
  obtain ⟨rfl, rfl⟩ := Prod.mk.inj heq
  exact List.mem_zipIdx_iff_getElem?.mp hzip

end Names

section Chains

/-- The chain of `SQOuterVar` entries from index `i` of the first list: it ends at register `pos`
of the function that is `level` further out than the next one. -/
def Leads : List (List SQOuterVar) → ℕ → ℕ → ℕ → Prop
  | [], _, _, _ => False
  | vars :: rest, i, level, pos =>
    ∃ v, vars[i]? = some v ∧
      (v.type = .otLOCAL ∧ level = 0 ∧ v.src = pos ∨
        v.type = .otOUTER ∧ ∃ l, level = l + 1 ∧ Leads rest v.src l pos)

/-- Entries are only added. -/
abbrev Extends : List (List SQOuterVar) → List (List SQOuterVar) → Prop :=
  List.Forall₂ fun vars vars' => vars <+: vars'

variable {chain chain' : List (List SQOuterVar)} {i level pos : ℕ}

theorem Extends.rfl : Extends chain chain := List.forall₂_same.mpr fun _ _ => List.prefix_rfl

theorem getElem?_of_prefix {α : Type*} {l l' : List α} {a : α} (h : l <+: l')
    (ha : l[i]? = some a) :
    l'[i]? = some a := by
  obtain ⟨rest, rfl⟩ := h
  rw [List.getElem?_append_left (List.getElem?_eq_some_iff.mp ha).1, ha]

theorem Leads.mono (h : Leads chain i level pos) (hext : Extends chain chain') :
    Leads chain' i level pos := by
  induction hext generalizing i level with
  | nil => exact h.elim
  | cons hvars _ ih =>
    obtain ⟨v, hv, hend⟩ := h
    refine ⟨v, getElem?_of_prefix hvars hv, ?_⟩
    obtain hlocal | ⟨htype, l, hl, hrest⟩ := hend
    · exact .inl hlocal
    · exact .inr ⟨htype, l, hl, ih hrest⟩

/-- The operand stands for the declaration. -/
def Occurrence.Resolved (o : Occurrence) (chain : List (List SQOuterVar)) : Prop :=
  match o.declaration with
  | none => o.operand = .other
  | some (0, pos) => o.operand = .local pos
  | some (level + 1, pos) => ∃ i, o.operand = .outer i ∧ Leads chain i level pos

theorem Occurrence.Resolved.mono {o : Occurrence} (h : o.Resolved chain)
    (hext : Extends chain chain') : o.Resolved chain' := by
  unfold Occurrence.Resolved at h ⊢
  split
  · simpa [*] using h
  · simpa [*] using h
  · rename_i hdecl
    rw [hdecl] at h
    obtain ⟨i, hi, hleads⟩ := h
    exact ⟨i, hi, hleads.mono hext⟩

/-- In a function and those within it every entry leads somewhere and every operand stands for
the declaration; `chain` are the `_outervalues` of the functions around it. -/
inductive SQFunctionProto.Resolved : SQFunctionProto → List (List SQOuterVar) → Prop
  | mk {p : SQFunctionProto} {chain : List (List SQOuterVar)}
    (outervalues : ∀ i < p.outervalues.length, ∃ level pos,
      Leads (p.outervalues :: chain) i level pos)
    (occurrences : ∀ o ∈ p.occurrences, o.Resolved (p.outervalues :: chain))
    (functions : ∀ f ∈ p.functions, SQFunctionProto.Resolved f (p.outervalues :: chain)) :
    SQFunctionProto.Resolved p chain

theorem SQFunctionProto.Resolved.mono {p : SQFunctionProto} (h : p.Resolved chain)
    (hext : Extends chain chain') : p.Resolved chain' := by
  induction h generalizing chain' with
  | @mk p chain outervalues occurrences _ ih =>
    have hext' : Extends (p.outervalues :: chain) (p.outervalues :: chain') :=
      .cons List.prefix_rfl hext
    refine .mk (fun i hi => ?_) (fun o ho => (occurrences o ho).mono hext') fun f hf => ih f hf hext'
    obtain ⟨level, pos, hleads⟩ := outervalues i hi
    exact ⟨level, pos, hleads.mono hext'⟩

end Chains

section States

/-- The `_outervalues` of functions -/
def outerChain (chain : List SQFuncState) : List (List SQOuterVar) := chain.map (·.outervalues)

/-- What a reference from an inner function does to a function around it. -/
structure SQFuncState.Grows (fs fs' : SQFuncState) : Prop where
  names : fs'.names = fs.names
  visible : fs'.visible = fs.visible
  functions : fs'.functions = fs.functions
  occurrences : fs'.occurrences = fs.occurrences
  outervalues : fs.outervalues <+: fs'.outervalues

/-- What holds of a function under compilation; `parents` are the functions around it. -/
structure SQFuncState.Valid (fs : SQFuncState) (parents : List SQFuncState) : Prop where
  visible : fs.visible = named fs.names
  outervalues : ∀ i v, fs.outervalues[i]? = some v → ∃ level pos,
    declaration v.name parents = some (level, pos) ∧
      Leads (outerChain (fs :: parents)) i level pos
  occurrences : ∀ o ∈ fs.occurrences, o.Resolved (outerChain (fs :: parents))
  functions : ∀ f ∈ fs.functions, f.Resolved (outerChain (fs :: parents))
  asserted : fs.asserted = true

def ValidChain : List SQFuncState → Prop
  | [] => True
  | fs :: parents => fs.Valid parents ∧ ValidChain parents

abbrev GrowAll : List SQFuncState → List SQFuncState → Prop := List.Forall₂ SQFuncState.Grows

variable {fs fs' fs'' : SQFuncState} {parents parents' : List SQFuncState} {name : String}

theorem SQFuncState.Grows.rfl : fs.Grows fs := ⟨.refl _, .refl _, .refl _, .refl _, List.prefix_rfl⟩

theorem SQFuncState.Grows.trans (h : fs.Grows fs') (h' : fs'.Grows fs'') : fs.Grows fs'' where
  names := h'.names.trans h.names
  visible := h'.visible.trans h.visible
  functions := h'.functions.trans h.functions
  occurrences := h'.occurrences.trans h.occurrences
  outervalues := h.outervalues.trans h'.outervalues

theorem GrowAll.rfl : GrowAll parents parents := List.forall₂_same.mpr fun _ _ => .rfl

theorem GrowAll.trans {parents'' : List SQFuncState} (h : GrowAll parents parents')
    (h' : GrowAll parents' parents'') : GrowAll parents parents'' := by
  induction h generalizing parents'' with
  | nil => exact h'
  | cons hfs _ ih =>
    cases h' with
    | cons hfs' hrest => exact .cons (hfs.trans hfs') (ih hrest)

theorem GrowAll.extends (h : GrowAll parents parents') :
    Extends (outerChain parents) (outerChain parents') := by
  induction h with
  | nil => exact .nil
  | cons hfs _ ih => exact .cons hfs.outervalues ih

theorem GrowAll.declaration_eq (h : GrowAll parents parents') (name : String) :
    declaration name parents' = declaration name parents := by
  induction h with
  | nil => rfl
  | cons hfs _ ih => simp only [declaration, hfs.visible, ih]

/-- A function stays valid when the functions around it grow. -/
theorem SQFuncState.Valid.grow (h : fs.Valid parents) (hgrow : GrowAll parents parents') :
    fs.Valid parents' := by
  have hext : Extends (outerChain (fs :: parents)) (outerChain (fs :: parents')) :=
    .cons List.prefix_rfl hgrow.extends
  refine ⟨h.visible, fun i v hv => ?_, fun o ho => (h.occurrences o ho).mono hext,
    fun f hf => (h.functions f hf).mono hext, h.asserted⟩
  obtain ⟨level, pos, hdecl, hleads⟩ := h.outervalues i v hv
  exact ⟨level, pos, (hgrow.declaration_eq v.name).trans hdecl, hleads.mono hext⟩

theorem SQFuncState.grows_markLocalAsOuter (fs : SQFuncState) (pos : ℕ) :
    fs.Grows (fs.markLocalAsOuter pos) where
  names := by
    refine List.ext_getElem? fun n => ?_
    simp only [SQFuncState.names, SQFuncState.markLocalAsOuter, List.getElem?_map,
      List.getElem?_modify]
    cases fs.vlocals[n]? with
    | none => rfl
    | some lvi => split_ifs <;> rfl
  visible := rfl
  functions := rfl
  occurrences := rfl
  outervalues := List.prefix_rfl

private theorem SQFuncState.grows_pushOuter (fs : SQFuncState) (pos : ℕ) (type : SQOuterType) :
    fs.Grows (fs.pushOuter name pos type) :=
  ⟨rfl, rfl, rfl, rfl, List.prefix_append _ _⟩

/-- A new entry that leads to the declaration of its name. -/
theorem SQFuncState.Valid.pushOuter (h : fs.Valid parents) {pos : ℕ} {type : SQOuterType}
    {level reg : ℕ} (hdecl : declaration name parents = some (level, reg))
    (hleads : Leads (outerChain (fs.pushOuter name pos type :: parents)) fs.outervalues.length
      level reg) : (fs.pushOuter name pos type).Valid parents := by
  have hext : Extends (outerChain (fs :: parents))
      (outerChain (fs.pushOuter name pos type :: parents)) :=
    .cons (List.prefix_append _ _) Extends.rfl
  refine ⟨h.visible, fun i v hv => ?_, fun o ho => (h.occurrences o ho).mono hext,
    fun f hf => (h.functions f hf).mono hext, h.asserted⟩
  simp only [SQFuncState.pushOuter, List.getElem?_append] at hv
  split_ifs at hv with hi
  · obtain ⟨l, p, hd, hl⟩ := h.outervalues i v hv
    exact ⟨l, p, hd, hl.mono hext⟩
  · have hlen : i = fs.outervalues.length := by
      have := (List.getElem?_eq_some_iff.mp hv).1
      simp only [List.length_singleton] at this
      omega
    subst hlen
    simp only [Nat.sub_self, List.getElem?_cons_zero, Option.some.injEq] at hv
    subst hv
    exact ⟨level, reg, hdecl, hleads⟩

theorem ValidChain.markLocalAsOuter (h : ValidChain (fs :: parents)) (pos : ℕ) :
    ValidChain (fs.markLocalAsOuter pos :: parents) := by
  have hgrow := fs.grows_markLocalAsOuter pos
  refine ⟨⟨?_, h.1.outervalues, h.1.occurrences, h.1.functions, h.1.asserted⟩, h.2⟩
  rw [hgrow.visible, hgrow.names, h.1.visible]

/-- What `GetOuterVariable` gives, and what it does to the functions. -/
structure Found (name : String) (fs : SQFuncState) (parents : List SQFuncState)
    (res : Option ℕ × List SQFuncState) : Prop where
  grow : GrowAll (fs :: parents) res.2
  valid : ValidChain res.2
  none : declaration name parents = none → res.1 = none
  some : ∀ level pos, declaration name parents = some (level, pos) →
    ∃ i, res.1 = some i ∧ Leads (outerChain res.2) i level pos

/-- An entry for the name is there already. -/
theorem found_entry (h : ValidChain (fs :: parents)) {i : ℕ}
    (hi : fs.outervalues.findIdx? (·.name = name) = some i) :
    Found name fs parents (some i, fs :: parents) := by
  obtain ⟨hlt, hname, -⟩ := List.findIdx?_eq_some_iff_getElem.mp hi
  obtain ⟨level, pos, hdecl, hleads⟩ :=
    h.1.outervalues i _ (List.getElem?_eq_getElem hlt)
  rw [of_decide_eq_true hname] at hdecl
  refine ⟨.rfl, h, fun hnone => ?_, fun level' pos' hsome => ?_⟩
  · rw [hdecl] at hnone
    cases hnone
  · rw [hdecl] at hsome
    obtain ⟨rfl, rfl⟩ := Prod.mk.inj (Option.some.inj hsome)
    exact ⟨i, rfl, hleads⟩

/-- The chain is searched on. -/
theorem declaration_passed (rest : List SQFuncState) (h : fs.visible.lookup name = none) :
    declaration name (fs :: rest) =
      (declaration name rest).map fun (level, pos) => (level + 1, pos) := by
  simp only [declaration, h]

/-- `GetOuterVariable` finds the declaration in the functions around. -/
theorem getOuterVariable_found (h : ValidChain (fs :: parents)) :
    Found name fs parents (getOuterVariable name (fs :: parents)) := by
  induction parents generalizing fs with
  | nil =>
    unfold getOuterVariable
    split
    · rename_i i hi
      exact found_entry h hi
    · exact ⟨.rfl, h, fun _ => rfl, fun _ _ hsome => by cases hsome⟩
  | cons parent rest ih =>
    unfold getOuterVariable
    split
    · rename_i i hi
      exact found_entry h hi
    · obtain ⟨hfs, hparent⟩ := h
      simp only [getLocalVariable_eq, ← hparent.1.visible]
      cases hlookup : parent.visible.lookup name with
      | some pos =>
        have hdecl : declaration name (parent :: rest) = some (0, pos) := by
          simp only [declaration, hlookup]
        have hgrow : GrowAll (parent :: rest) (parent.markLocalAsOuter pos :: rest) :=
          .cons (parent.grows_markLocalAsOuter pos) GrowAll.rfl
        have hleads : Leads
            (outerChain (fs.pushOuter name pos .otLOCAL :: parent.markLocalAsOuter pos :: rest))
            fs.outervalues.length 0 pos :=
          ⟨⟨name, pos, .otLOCAL⟩, List.getElem?_concat_length, .inl ⟨rfl, rfl, rfl⟩⟩
        refine ⟨.cons (fs.grows_pushOuter pos _) hgrow, ⟨?_, ?_⟩, ?_, ?_⟩
        · exact (hfs.grow hgrow).pushOuter ((hgrow.declaration_eq name).trans hdecl) hleads
        · exact hparent.markLocalAsOuter pos
        · intro hnone
          rw [hdecl] at hnone
          cases hnone
        · intro level pos' hsome
          rw [hdecl] at hsome
          obtain ⟨rfl, rfl⟩ := Prod.mk.inj (Option.some.inj hsome)
          exact ⟨_, rfl, hleads⟩
      | none =>
        have hdecl := declaration_passed rest hlookup
        have hfound := ih hparent
        generalize getOuterVariable name (parent :: rest) = res at hfound
        obtain ⟨_ | pos, parents'⟩ := res
        · refine ⟨.cons .rfl hfound.grow, ⟨hfs.grow hfound.grow, hfound.valid⟩, fun _ => rfl, ?_⟩
          intro level pos hsome
          rw [hdecl, Option.map_eq_some_iff] at hsome
          obtain ⟨⟨l, p⟩, hrest, -⟩ := hsome
          obtain ⟨i, hi, -⟩ := hfound.some l p hrest
          cases hi
        · -- the entry of the parent is that of its declaration
          obtain ⟨⟨l, p⟩, hrest⟩ : ∃ d, declaration name rest = some d := by
            cases hrest : declaration name rest with
            | none => exact absurd (hfound.none hrest) (Option.some_ne_none pos)
            | some d => exact ⟨d, rfl⟩
          obtain ⟨i, hi, hparent'⟩ := hfound.some l p hrest
          obtain rfl := Option.some.inj hi
          rw [hrest] at hdecl
          have hleads : Leads (outerChain (fs.pushOuter name pos .otOUTER :: parents'))
              fs.outervalues.length (l + 1) p :=
            ⟨⟨name, pos, .otOUTER⟩, List.getElem?_concat_length, .inr ⟨rfl, l, rfl, hparent'⟩⟩
          refine ⟨.cons (fs.grows_pushOuter pos _) hfound.grow, ⟨?_, hfound.valid⟩, ?_, ?_⟩
          · exact (hfs.grow hfound.grow).pushOuter
              ((hfound.grow.declaration_eq name).trans hdecl) hleads
          · intro hnone
            rw [hdecl] at hnone
            cases hnone
          · intro level pos' hsome
            rw [hdecl] at hsome
            obtain ⟨rfl, rfl⟩ := Prod.mk.inj (Option.some.inj hsome)
            exact ⟨_, rfl, hleads⟩

end States

section Compiling

variable {c c' c'' : SQCompiler}

/-- What compiling a part of a function does, if `names` are in the registers it takes. -/
structure Compiled (names : List (Option String)) (c c' : SQCompiler) : Prop where
  valid : ValidChain (c'.fs :: c'.parents)
  parents : GrowAll c.parents c'.parents
  names : c'.fs.names = c.fs.names ++ names

theorem Compiled.trans {names names' : List (Option String)} (h : Compiled names c c')
    (h' : Compiled names' c' c'') : Compiled (names ++ names') c c'' :=
  ⟨h'.valid, h.parents.trans h'.parents, by rw [h'.names, h.names, List.append_assoc]⟩

/-- Only the names of a function have changed. -/
theorem SQFuncState.Valid.congr {fs fs' : SQFuncState} {parents : List SQFuncState}
    (h : fs.Valid parents) (hvars : fs'.outervalues = fs.outervalues)
    (hocc : fs'.occurrences = fs.occurrences) (hfun : fs'.functions = fs.functions)
    (hasserted : fs'.asserted = fs.asserted) (hvisible : fs'.visible = named fs'.names) :
    fs'.Valid parents := by
  have hchain : outerChain (fs' :: parents) = outerChain (fs :: parents) := by
    simp only [outerChain, List.map_cons, hvars]
  refine ⟨hvisible, ?_, ?_, ?_, hasserted.trans h.asserted⟩
  · rw [hvars, hchain]
    exact h.outervalues
  · rw [hocc, hchain]
    exact h.occurrences
  · rw [hfun, hchain]
    exact h.functions

theorem SQFuncState.names_length (fs : SQFuncState) : fs.names.length = fs.vlocals.length :=
  List.length_map _

private theorem Compiled.length_lt {name : Option String} {names : List (Option String)}
    (h : Compiled (name :: names) c c') : c.fs.vlocals.length < c'.fs.vlocals.length := by
  rw [← SQFuncState.names_length, ← SQFuncState.names_length, h.names, List.length_append,
    List.length_cons]
  omega

theorem compiled_pushTemporary (h : ValidChain (c.fs :: c.parents)) :
    Compiled [none] c (c.modify (·.pushTemporary)) := by
  have hnames : c.fs.pushTemporary.names = c.fs.names ++ [none] := List.map_append
  refine ⟨⟨h.1.congr rfl rfl rfl rfl ?_, h.2⟩, .rfl, hnames⟩
  rw [SQCompiler.modify, hnames, named_concat]
  exact h.1.visible

theorem SQFuncState.names_pushLocalVariable (fs : SQFuncState) (name : String) :
    (fs.pushLocalVariable name).names = fs.names ++ [some name] := List.map_append

theorem SQFuncState.Valid.pushLocalVariable {fs : SQFuncState} {parents : List SQFuncState}
    (h : fs.Valid parents) (name : String) : (fs.pushLocalVariable name).Valid parents := by
  refine h.congr rfl rfl rfl rfl ?_
  rw [fs.names_pushLocalVariable, named_concat, fs.names_length, ← h.visible]
  rfl

theorem compiled_pushLocalVariable (h : ValidChain (c.fs :: c.parents)) (name : String) :
    Compiled [some name] c (c.modify (·.pushLocalVariable name)) :=
  ⟨⟨h.1.pushLocalVariable name, h.2⟩, .rfl, c.fs.names_pushLocalVariable name⟩

section PopTarget

variable (fs : SQFuncState) (npos : ℕ)

@[simp] theorem popTarget_outervalues : (fs.popTarget npos).outervalues = fs.outervalues := by
  unfold SQFuncState.popTarget
  split <;> rfl

@[simp] theorem popTarget_occurrences : (fs.popTarget npos).occurrences = fs.occurrences := by
  unfold SQFuncState.popTarget
  split <;> rfl

@[simp] theorem popTarget_functions : (fs.popTarget npos).functions = fs.functions := by
  unfold SQFuncState.popTarget
  split <;> rfl

@[simp] theorem popTarget_visible : (fs.popTarget npos).visible = fs.visible := by
  unfold SQFuncState.popTarget
  split <;> rfl

private theorem popTarget_asserted {fs : SQFuncState} {npos : ℕ} (h : npos < fs.vlocals.length) :
    (fs.popTarget npos).asserted = fs.asserted := by
  unfold SQFuncState.popTarget
  rw [List.getElem?_eq_getElem h]
  split <;> first | rfl | contradiction

/-- A register with a name stays. -/
theorem popTarget_of_named {fs : SQFuncState} {npos : ℕ} {name : String}
    (h : fs.names[npos]? = some (some name)) : fs.popTarget npos = fs := by
  obtain ⟨⟨_, outer⟩, hlvi, rfl⟩ : ∃ lvi, fs.vlocals[npos]? = some lvi ∧ lvi.name = some name := by
    simpa only [SQFuncState.names, List.getElem?_map, Option.map_eq_some_iff] using h
  rw [SQFuncState.popTarget, hlvi]

/-- A register that is not the last one stays. -/
theorem prefix_popTarget {names rest : List (Option String)} (h : fs.names = names ++ rest)
    (hrest : rest ≠ []) : names <+: (fs.popTarget npos).names := by
  unfold SQFuncState.popTarget
  split
  · simp only [SQFuncState.names, List.map_dropLast]
    rw [← SQFuncState.names, h, List.dropLast_append_of_ne_nil hrest]
    exact List.prefix_append _ _
  · exact ⟨rest, h.symm⟩
  · exact ⟨rest, h.symm⟩

end PopTarget

/-- A temporary goes, and takes the last register with it. -/
theorem names_popTarget {fs : SQFuncState} {names rest : List (Option String)}
    (h : fs.names = names ++ none :: rest) :
    (fs.popTarget names.length).names = names ++ (none :: rest).dropLast := by
  obtain ⟨lvi, hlvi, hname⟩ : ∃ lvi, fs.vlocals[names.length]? = some lvi ∧ lvi.name = none := by
    have hnone : fs.names[names.length]? = some none := by simp [h]
    simpa only [SQFuncState.names, List.getElem?_map, Option.map_eq_some_iff] using hnone
  obtain ⟨lname, outer⟩ := lvi
  obtain rfl : lname = none := hname
  rw [SQFuncState.popTarget, hlvi]
  simp only [SQFuncState.names, List.map_dropLast]
  rw [← SQFuncState.names, h, List.dropLast_append_of_ne_nil (List.cons_ne_nil _ _)]

/-- At the end of a scope the names are those of its beginning. -/
theorem compiled_endScope {fs : SQFuncState} {names : List (Option String)}
    (hc : ValidChain (c.fs :: c.parents)) (h : Compiled names c c')
    (hvars : fs.outervalues = c'.fs.outervalues) (hocc : fs.occurrences = c'.fs.occurrences)
    (hfun : fs.functions = c'.fs.functions) (hasserted : fs.asserted = c'.fs.asserted)
    (hnames : c.fs.names <+: fs.names) :
    Compiled [] c (SQCompiler.endScope ⟨fs, c'.parents⟩ c) := by
  have htake : (SQCompiler.endScope ⟨fs, c'.parents⟩ c).fs.names = c.fs.names := by
    simp only [SQCompiler.endScope, SQCompiler.modify, SQFuncState.setStackSize,
      SQFuncState.names, List.map_take]
    rw [← SQFuncState.names, ← SQFuncState.names_length]
    exact (List.prefix_iff_eq_take.mp hnames).symm
  refine ⟨⟨h.valid.1.congr hvars hocc hfun hasserted ?_, h.valid.2⟩, h.parents, ?_⟩
  · rw [htake]
    exact hc.1.visible
  · rw [htake, List.append_nil]

/-- An occurrence is noted. -/
theorem SQFuncState.Valid.note {fs : SQFuncState} {parents : List SQFuncState}
    (h : fs.Valid parents) {o : Occurrence} (ho : o.Resolved (outerChain (fs :: parents))) :
    { fs with occurrences := fs.occurrences ++ [o] }.Valid parents := by
  refine ⟨h.visible, h.outervalues, fun o' ho' => ?_, h.functions, h.asserted⟩
  rw [List.mem_append, List.mem_singleton] at ho'
  obtain ho' | rfl := ho'
  · exact h.occurrences o' ho'
  · exact ho

theorem compiled_factor (h : ValidChain (c.fs :: c.parents)) (name : String) (constant : Bool) :
    Compiled [] c (c.factor name constant).1 := by
  unfold SQCompiler.factor
  simp only [getLocalVariable_eq, ← h.1.visible]
  cases hlookup : c.fs.visible.lookup name with
  | some pos =>
    have hdecl : declaration name (c.fs :: c.parents) = some (0, pos) := by
      simp only [declaration, hlookup]
    refine ⟨⟨h.1.note ?_, h.2⟩, .rfl, (List.append_nil _).symm⟩
    simp only [Occurrence.Resolved, hdecl]
  | none =>
    have hdecl := declaration_passed c.parents hlookup
    have hfound : Found name c.fs c.parents _ := getOuterVariable_found h
    generalize getOuterVariable name (c.fs :: c.parents) = res at hfound
    obtain ⟨found, chain⟩ := res
    obtain ⟨fs', parents', rfl⟩ : ∃ fs' parents', chain = fs' :: parents' := by
      cases hfound.grow with
      | cons _ _ => exact ⟨_, _, rfl⟩
    cases hparents : declaration name c.parents with
    | none =>
      obtain rfl : found = none := hfound.none hparents
      rw [hparents] at hdecl
      refine ⟨⟨h.1.note ?_, h.2⟩, .rfl, (List.append_nil _).symm⟩
      simp only [Occurrence.Resolved, hdecl, Option.map_none]
    | some d =>
      obtain ⟨level, pos⟩ := d
      obtain ⟨i, rfl : found = some i, hleads⟩ := hfound.some level pos hparents
      rw [hparents] at hdecl
      cases hfound.grow with
      | cons hfs hrest =>
        refine ⟨⟨hfound.valid.1.note ?_, hfound.valid.2⟩, hrest, ?_⟩
        · simp only [Occurrence.Resolved, hdecl, Option.map_some]
          exact ⟨i, rfl, hleads⟩
        · rw [List.append_nil]
          exact hfs.names

/-- The first register has a name, that of a parameter. -/
def SQFuncState.FirstNamed (fs : SQFuncState) : Prop := ∃ name, fs.names[0]? = some (some name)

theorem Compiled.firstNamed {names : List (Option String)} (h : Compiled names c c')
    (hc : c.fs.FirstNamed) : c'.fs.FirstNamed := by
  obtain ⟨name, hname⟩ := hc
  exact ⟨name, by rw [h.names]; exact getElem?_of_prefix (List.prefix_append _ _) hname⟩

/-- The register of an identifier has a name. -/
theorem factor_target (hc : c.fs.FirstNamed) {name : String}
    {constant : Bool} {npos : ℕ} (hnpos : (c.factor name constant).2 = some npos) :
    ∃ n, c.fs.names[npos]? = some (some n) := by
  unfold SQCompiler.factor at hnpos
  simp only [getLocalVariable_eq] at hnpos
  cases hlookup : (named c.fs.names).lookup name with
  | some pos =>
    simp only [hlookup, Option.some.injEq] at hnpos
    subst hnpos
    exact ⟨name, names_getElem?_of_lookup hlookup⟩
  | none =>
    simp only [hlookup] at hnpos
    split at hnpos
    · cases hnpos
    · split_ifs at hnpos
      obtain rfl := Option.some.inj hnpos
      exact hc

/-- `PopTarget` of a register with a name does nothing. -/
theorem Compiled.popTarget {names : List (Option String)} {target : Option ℕ}
    (h : Compiled names c c')
    (htarget : ∀ npos, target = some npos → ∃ n, c.fs.names[npos]? = some (some n)) :
    Compiled names c (c'.popTarget target) := by
  cases target with
  | none => exact h
  | some npos =>
    obtain ⟨n, hn⟩ := htarget npos rfl
    have hnamed : c'.fs.names[npos]? = some (some n) := by
      rw [h.names]
      exact getElem?_of_prefix (List.prefix_append _ _) hn
    rw [SQCompiler.popTarget, SQCompiler.modify, popTarget_of_named hnamed]
    exact h

/-- The container and the variables of a `foreach` -/
theorem compiled_foreachHead (h : ValidChain (c.fs :: c.parents)) (temporary : Bool)
    (idxname valname : String) : ∃ name names, Compiled (name :: names) c
      ((if temporary then c.modify (·.pushTemporary) else c).modify fun fs =>
        ((fs.pushLocalVariable idxname).pushLocalVariable valname).pushLocalVariable
          "@ITERATOR@") := by
  obtain ⟨names, h₁⟩ : ∃ names,
      Compiled names c (if temporary then c.modify (·.pushTemporary) else c) := by
    cases temporary with
    | false => exact ⟨[], h, .rfl, (List.append_nil _).symm⟩
    | true => exact ⟨[none], compiled_pushTemporary h⟩
  have hidx := h₁.trans (compiled_pushLocalVariable h₁.valid idxname)
  have hval := hidx.trans (compiled_pushLocalVariable hidx.valid valname)
  have hitr := hval.trans (compiled_pushLocalVariable hval.valid "@ITERATOR@")
  cases names with
  | nil => exact ⟨_, _, hitr⟩
  | cons name names => exact ⟨_, _, hitr⟩

/-- A new function -/
theorem valid_create (parameters : List String) (parents : List SQFuncState) :
    (SQFuncState.create parameters).Valid parents := by
  have hempty : SQFuncState.Valid ⟨[], 0, [], [], [], [], true⟩ parents :=
    ⟨rfl, by simp, by simp, by simp, rfl⟩
  unfold SQFuncState.create
  generalize SQFuncState.mk [] 0 [] [] [] [] true = fs at hempty
  induction parameters generalizing fs with
  | nil => exact hempty
  | cons name parameters ih => exact ih _ (hempty.pushLocalVariable name)

private theorem names_create (parameters : List String) :
    (SQFuncState.create parameters).names = parameters.map some := by
  have hnames : ∀ fs : SQFuncState, (parameters.foldl SQFuncState.pushLocalVariable fs).names =
      fs.names ++ parameters.map some := by
    induction parameters with
    | nil => exact fun _ => (List.append_nil _).symm
    | cons name parameters ih =>
      intro fs
      rw [List.foldl_cons, ih, fs.names_pushLocalVariable, List.append_assoc]
      rfl
  exact hnames _

theorem firstNamed_create {parameters : List String} (h : parameters ≠ []) :
    (SQFuncState.create parameters).FirstNamed := by
  cases parameters with
  | nil => exact absurd rfl h
  | cons name parameters => exact ⟨name, by rw [names_create]; rfl⟩

theorem SQFuncState.Valid.buildProto {fs : SQFuncState} {parents : List SQFuncState}
    (h : fs.Valid parents) : (SQCompiler.buildProto ⟨fs, parents⟩).Resolved (outerChain parents) := by
  refine .mk (fun i hi => ?_) h.occurrences h.functions
  obtain ⟨level, pos, -, hleads⟩ := h.outervalues i _ (List.getElem?_eq_getElem hi)
  exact ⟨level, pos, hleads⟩

theorem SQFuncState.Valid.pushFunction {fs child : SQFuncState} {parents : List SQFuncState}
    (h : fs.Valid parents) (hchild : child.Valid (fs :: parents)) :
    (fs.pushFunction ⟨child, fs :: parents⟩).Valid parents := by
  refine ⟨h.visible, h.outervalues, h.occurrences, fun f hf => ?_, ?_⟩
  · rw [SQFuncState.pushFunction, List.mem_append, List.mem_singleton] at hf
    obtain hf | rfl := hf
    · exact h.functions f hf
    · exact hchild.buildProto
  · rw [SQFuncState.pushFunction, h.asserted, hchild.asserted]
    rfl

mutual

theorem Item.compiled (item : Item) (c : SQCompiler) (hitem : item.Orderly)
    (h : ValidChain (c.fs :: c.parents)) (hc : c.fs.FirstNamed) :
    Compiled (item.declared.map some) c (item.compile c) := by
  cases item with
  | identifier name constant inner =>
    unfold Item.compile
    have hname := compiled_factor h name constant
    have hinner := hname.trans (inner.compiled _ hitem hname.valid (hname.firstNamed hc))
    exact hinner.popTarget fun _ => factor_target hc
  | slot inner =>
    unfold Item.compile
    refine (inner.compiled c hitem h hc).popTarget fun npos hnpos => ?_
    obtain rfl := Option.some.inj hnpos
    exact hc
  | declare name =>
    unfold Item.compile
    exact compiled_pushLocalVariable h name
  | temporary inner =>
    unfold Item.compile
    have hpush := compiled_pushTemporary h
    have hinner := hpush.trans (inner.compiled _ hitem.1 hpush.valid (hpush.firstNamed hc))
    rw [hitem.2] at hinner
    have hpopped := names_popTarget hinner.names
    rw [SQFuncState.names_length] at hpopped
    rw [Item.declared, hitem.2]
    refine ⟨⟨hinner.valid.1.congr (popTarget_outervalues _ _) (popTarget_occurrences _ _)
      (popTarget_functions _ _) (popTarget_asserted hinner.length_lt) ?_, hinner.valid.2⟩,
      hinner.parents, hpopped⟩
    rw [SQCompiler.modify, popTarget_visible, hinner.valid.1.visible, hinner.names]
    exact (named_concat c.fs.names none).trans
      (congrArg named (hpopped.trans (List.append_nil _)).symm)
  | block inner =>
    unfold Item.compile
    have hinner := inner.compiled c hitem h hc
    exact compiled_endScope h hinner rfl rfl rfl rfl ⟨_, hinner.names.symm⟩
  | foreach container temporary idxname valname body =>
    unfold Item.compile
    have hcontainer := container.compiled c hitem.1 h hc
    obtain ⟨name, names, hhead⟩ := compiled_foreachHead hcontainer.valid temporary idxname valname
    have hfirst := (hcontainer.trans hhead).firstNamed hc
    have hrest := hhead.trans (body.compiled _ hitem.2 hhead.valid hfirst)
    have hbody := hcontainer.trans hrest
    cases temporary with
    | false => exact compiled_endScope h hbody rfl rfl rfl rfl ⟨_, hbody.names.symm⟩
    | true =>
      exact compiled_endScope h hbody (popTarget_outervalues _ _) (popTarget_occurrences _ _)
        (popTarget_functions _ _) (popTarget_asserted hrest.length_lt)
        (prefix_popTarget _ _ hbody.names (by simp))
  | function parameters body =>
    unfold Item.compile
    have hchild : ValidChain (SQFuncState.create parameters :: c.fs :: c.parents) :=
      ⟨valid_create parameters _, h⟩
    obtain ⟨hvalid, hparents, -⟩ :=
      body.compiled ⟨.create parameters, c.fs :: c.parents⟩ hitem.2 hchild
        (firstNamed_create hitem.1)
    generalize Items.compile body ⟨.create parameters, c.fs :: c.parents⟩ = child at hvalid hparents
    obtain ⟨fs, parents⟩ := child
    cases hparents with
    | cons hparent hrest =>
      exact ⟨⟨hvalid.2.1.pushFunction hvalid.1, hvalid.2.2⟩, hrest,
        hparent.names.trans (List.append_nil _).symm⟩

theorem Items.compiled (items : Items) (c : SQCompiler) (hitems : items.Orderly)
    (h : ValidChain (c.fs :: c.parents)) (hc : c.fs.FirstNamed) :
    Compiled (items.declared.map some) c (items.compile c) := by
  cases items with
  | nil => exact ⟨h, .rfl, (List.append_nil _).symm⟩
  | cons item items =>
    have hitem := item.compiled c hitems.1 h hc
    have hrest := items.compiled (item.compile c) hitems.2 hitem.valid (hitem.firstNamed hc)
    unfold Items.compile Items.declared
    rw [List.map_append]
    exact hitem.trans hrest

end

end Compiling

/-- What the script does to the function it begins in -/
theorem compiled_script {script : Items} (h : script.Orderly) :
    Compiled (script.declared.map some) ⟨.create ["this", "vargv"], []⟩
      (script.compile ⟨.create ["this", "vargv"], []⟩) :=
  script.compiled _ h ⟨valid_create _ _, trivial⟩ (firstNamed_create (List.cons_ne_nil _ _))

/-- The script and the functions in it -/
theorem compile_resolved {script : Items} (h : script.Orderly) : (compile script).Resolved [] := by
  have hscript := compiled_script h
  obtain hnil : (script.compile ⟨.create ["this", "vargv"], []⟩).parents = [] :=
    List.forall₂_nil_left_iff.mp hscript.parents
  have hproto := hscript.valid.1.buildProto
  rwa [hnil] at hproto

end Squirt.Scoping
