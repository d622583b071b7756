import Squirt.OuterBinding

/-!
# Declarations among temporaries

A declaration that is made while a temporary of the same block is in use is forgotten with that
temporary, and the next identifier of its name stands for something else. In a function without
parameters `PopTarget` of register 0, where `this` is taken to be, finds no register.
-/

namespace Squirt.Scoping

mutual

theorem Item.declared_fill (name : String) (item : Item) :
    (item.fill name).declared = item.declared := by
  cases item with
  | identifier _ _ inner => exact inner.declared_fill name
  | slot inner => exact inner.declared_fill name
  | temporary inner => exact inner.declared_fill name
  | _ => rfl

theorem Items.declared_fill (name : String) (items : Items) :
    (items.fill name).declared = items.declared := by
  cases items with
  | nil => rfl
  | cons item items =>
    simp only [Items.fill, Items.declared, item.declared_fill name, items.declared_fill name]
    rfl

end

mutual

theorem Item.orderly_fill (name : String) {item : Item} (h : item.Orderly) :
    (item.fill name).Orderly := by
  cases item with
  | identifier _ _ inner => exact inner.orderly_fill name h
  | slot inner => exact inner.orderly_fill name h
  | declare _ => trivial
  | temporary inner =>
    exact ⟨inner.orderly_fill name h.1, (inner.declared_fill name).trans h.2⟩
  | block inner => exact inner.orderly_fill name h
  | foreach container _ _ _ body =>
    exact ⟨container.orderly_fill name h.1, body.orderly_fill name h.2⟩
  | function _ body => exact ⟨h.1, body.orderly_fill name h.2⟩

theorem Items.orderly_fill (name : String) {items : Items} (h : items.Orderly) :
    (items.fill name).Orderly := by
  cases items with
  | nil => exact ⟨trivial, trivial, trivial⟩
  | cons item items =>
    exact ⟨trivial, trivial, item.orderly_fill name h.1, items.orderly_fill name h.2⟩

end

section Keeping

/-- Occurrences and functions are only added, and a failed assertion is not forgotten. -/
structure SQFuncState.Keeps (fs fs' : SQFuncState) : Prop where
  occurrences : fs.occurrences <+: fs'.occurrences
  functions : fs.functions <+: fs'.functions
  asserted : fs.asserted = false → fs'.asserted = false

/-- The same for a function and those around it -/
abbrev KeepAll : List SQFuncState → List SQFuncState → Prop := List.Forall₂ SQFuncState.Keeps

variable {c c' c'' : SQCompiler} {chain chain' chain'' : List SQFuncState}

theorem SQFuncState.Keeps.rfl {fs : SQFuncState} : fs.Keeps fs :=
  ⟨List.prefix_rfl, List.prefix_rfl, id⟩

theorem SQFuncState.Keeps.trans {fs fs' fs'' : SQFuncState} (h : fs.Keeps fs')
    (h' : fs'.Keeps fs'') : fs.Keeps fs'' where
  occurrences := h.occurrences.trans h'.occurrences
  functions := h.functions.trans h'.functions
  asserted := h'.asserted ∘ h.asserted

theorem SQFuncState.Keeps.of_eq {fs fs' : SQFuncState} (hocc : fs'.occurrences = fs.occurrences)
    (hfun : fs'.functions = fs.functions) (hasserted : fs'.asserted = fs.asserted) :
    fs.Keeps fs' :=
  ⟨hocc ▸ List.prefix_rfl, hfun ▸ List.prefix_rfl, fun h => hasserted.trans h⟩

theorem keeps_popTarget (fs : SQFuncState) (npos : ℕ) : fs.Keeps (fs.popTarget npos) := by
  refine ⟨?_, ?_, fun h => ?_⟩
  · rw [popTarget_occurrences]
  · rw [popTarget_functions]
  · unfold SQFuncState.popTarget
    split
    · exact h
    · exact h
    · rfl

theorem keeps_pushFunction (fs : SQFuncState) (child : SQCompiler) :
    fs.Keeps (fs.pushFunction child) := by
  refine ⟨List.prefix_rfl, List.prefix_append _ _, fun h => ?_⟩
  rw [SQFuncState.pushFunction, h]
  rfl

theorem KeepAll.rfl : KeepAll chain chain := List.forall₂_same.mpr fun _ _ => .rfl

theorem KeepAll.trans (h : KeepAll chain chain') (h' : KeepAll chain' chain'') :
    KeepAll chain chain'' := by
  induction h generalizing chain'' with
  | nil => exact h'
  | cons hfs _ ih =>
    cases h' with
    | cons hfs' hrest =>
      exact .cons (hfs.trans hfs') (ih hrest)

/-- What is done to `_fs` alone -/
theorem keepAll_modify {f : SQFuncState → SQFuncState} (hf : c.fs.Keeps (f c.fs)) :
    KeepAll (c.fs :: c.parents) ((c.modify f).fs :: (c.modify f).parents) :=
  .cons hf KeepAll.rfl

private theorem getOuterVariable_keepAll (name : String) (chain : List SQFuncState) :
    KeepAll chain (getOuterVariable name chain).2 := by
  induction chain with
  | nil => exact .nil
  | cons fs parents ih =>
    unfold getOuterVariable
    split
    · exact .rfl
    · split
      · exact .rfl
      · rename_i parent rest
        split
        · exact .cons (.of_eq rfl rfl rfl) (.cons (.of_eq rfl rfl rfl) KeepAll.rfl)
        · split
          · rename_i heq
            rw [heq] at ih
            exact .cons (.of_eq rfl rfl rfl) ih
          · rename_i heq
            rw [heq] at ih
            exact .cons .rfl ih

private theorem factor_keepAll (c : SQCompiler) (name : String) (constant : Bool) :
    KeepAll (c.fs :: c.parents)
      ((c.factor name constant).1.fs :: (c.factor name constant).1.parents) := by
  have hnote : ∀ {fs : SQFuncState} {o : Occurrence},
      fs.Keeps { fs with occurrences := fs.occurrences ++ [o] } :=
    ⟨List.prefix_append _ _, List.prefix_rfl, id⟩
  have hgrow := getOuterVariable_keepAll name (c.fs :: c.parents)
  unfold SQCompiler.factor
  dsimp only
  split
  · exact .cons hnote KeepAll.rfl
  · split
    · rename_i heq
      rw [heq] at hgrow
      exact hgrow.trans (.cons hnote KeepAll.rfl)
    · exact .cons hnote KeepAll.rfl

theorem popTarget_keepAll (c : SQCompiler) (target : Option ℕ) :
    KeepAll (c.fs :: c.parents) ((c.popTarget target).fs :: (c.popTarget target).parents) := by
  cases target with
  | none => exact .rfl
  | some npos => exact keepAll_modify (keeps_popTarget _ _)

mutual

theorem Item.keepAll (item : Item) (c : SQCompiler) :
    KeepAll (c.fs :: c.parents) ((item.compile c).fs :: (item.compile c).parents) := by
  cases item with
  | identifier name constant inner =>
    unfold Item.compile
    exact ((factor_keepAll c name constant).trans (inner.keepAll _)).trans (popTarget_keepAll _ _)
  | slot inner =>
    unfold Item.compile
    exact (inner.keepAll c).trans (popTarget_keepAll _ _)
  | declare name =>
    unfold Item.compile
    exact keepAll_modify (.of_eq rfl rfl rfl)
  | temporary inner =>
    unfold Item.compile
    have hpush := keepAll_modify (c := c) (f := (·.pushTemporary)) (.of_eq rfl rfl rfl)
    exact (hpush.trans (inner.keepAll _)).trans
      (keepAll_modify (keeps_popTarget _ _))
  | block inner =>
    unfold Item.compile
    exact (inner.keepAll c).trans (keepAll_modify (.of_eq rfl rfl rfl))
  | foreach container temporary idxname valname body =>
    unfold Item.compile
    have hcontainer := container.keepAll c
    have hpush : ∀ c : SQCompiler, KeepAll (c.fs :: c.parents)
        ((c.modify (·.pushTemporary)).fs :: (c.modify (·.pushTemporary)).parents) :=
      fun c => keepAll_modify (.of_eq rfl rfl rfl)
    have hlocals : ∀ c : SQCompiler, KeepAll (c.fs :: c.parents) (_ :: _) := fun c =>
      keepAll_modify (c := c) (f := fun fs =>
        ((fs.pushLocalVariable idxname).pushLocalVariable valname).pushLocalVariable
          "@ITERATOR@") (.of_eq rfl rfl rfl)
    have hend : ∀ c' : SQCompiler, KeepAll (c'.fs :: c'.parents)
        ((c'.endScope c).fs :: (c'.endScope c).parents) :=
      fun c' => keepAll_modify (.of_eq rfl rfl rfl)
    cases temporary with
    | false => exact ((hcontainer.trans (hlocals _)).trans (body.keepAll _)).trans (hend _)
    | true =>
      exact ((((hcontainer.trans (hpush _)).trans (hlocals _)).trans (body.keepAll _)).trans
        (keepAll_modify (keeps_popTarget _ _))).trans
          (hend _)
  | function parameters body =>
    unfold Item.compile
    have hbody := body.keepAll ⟨.create parameters, c.fs :: c.parents⟩
    generalize Items.compile body ⟨.create parameters, c.fs :: c.parents⟩ = child at hbody
    obtain ⟨fs, parents⟩ := child
    cases hbody with
    | cons _ hparents =>
      cases hparents with
      | cons hparent hrest =>
        exact .cons (hparent.trans (keeps_pushFunction _ _)) hrest

theorem Items.keepAll (items : Items) (c : SQCompiler) :
    KeepAll (c.fs :: c.parents) ((items.compile c).fs :: (items.compile c).parents) := by
  cases items with
  | nil => exact .rfl
  | cons item items => exact (item.keepAll c).trans (items.keepAll (item.compile c))

end

end Keeping

section Misled

/-- The operand stands for something else than a declaration in the same function. -/
def Occurrence.Misled (o : Occurrence) : Prop :=
  ∃ pos, o.declaration = some (0, pos) ∧ o.operand ≠ .local pos

/-- An operand in the function or one within it stands for something else. -/
inductive SQFunctionProto.Misled : SQFunctionProto → Prop
  | here {p : SQFunctionProto} {o : Occurrence} (ho : o ∈ p.occurrences) (h : o.Misled) :
    SQFunctionProto.Misled p
  | inner {p f : SQFunctionProto} (hf : f ∈ p.functions) (h : SQFunctionProto.Misled f) :
    SQFunctionProto.Misled p

theorem SQFunctionProto.Misled.not_resolved {p : SQFunctionProto} (h : p.Misled)
    (chain : List (List SQOuterVar)) : ¬p.Resolved chain := by
  induction h generalizing chain with
  | here ho h =>
    rintro ⟨-, occurrences, -⟩
    obtain ⟨pos, hdecl, hne⟩ := h
    have hresolved := occurrences _ ho
    simp only [Occurrence.Resolved, hdecl] at hresolved
    exact hne hresolved
  | inner hf _ ih =>
    rintro ⟨-, -, functions⟩
    exact ih _ (functions _ hf)

/-- The same for a function under compilation, or an assertion has failed. -/
def SQFuncState.Misled (fs : SQFuncState) : Prop :=
  (∃ o ∈ fs.occurrences, o.Misled) ∨ (∃ f ∈ fs.functions, f.Misled) ∨ fs.asserted = false

/-- The same for `_fs` or a function around it -/
def SQCompiler.Misled (c : SQCompiler) : Prop := ∃ fs ∈ c.fs :: c.parents, fs.Misled

theorem SQFuncState.Misled.keep {fs fs' : SQFuncState} (h : fs.Misled) (hkeeps : fs.Keeps fs') :
    fs'.Misled := by
  obtain ⟨o, ho, h⟩ | ⟨f, hf, h⟩ | h := h
  · exact .inl ⟨o, hkeeps.occurrences.subset ho, h⟩
  · exact .inr (.inl ⟨f, hkeeps.functions.subset hf, h⟩)
  · exact .inr (.inr (hkeeps.asserted h))

variable {c c' : SQCompiler}

theorem SQCompiler.Misled.keep (h : c.Misled)
    (hkeep : KeepAll (c.fs :: c.parents) (c'.fs :: c'.parents)) : c'.Misled := by
  obtain ⟨fs, hfs, hmisled⟩ := h
  obtain ⟨n, hn⟩ := List.mem_iff_getElem?.mp hfs
  obtain ⟨fs', hn', hkeeps⟩ := getElem?_of_forall₂ hkeep hn
  exact ⟨fs', List.mem_of_getElem? hn', hmisled.keep hkeeps⟩

/-- The latest declaration of the name is not in the registers any more. -/
def SQCompiler.Forgets (c : SQCompiler) (name : String) : Prop :=
  ∃ pos, c.fs.visible.lookup name = some pos ∧ c.fs.getLocalVariable name ≠ some pos

/-- The next identifier of a name that was forgotten -/
theorem SQCompiler.Forgets.factor {name : String} (h : c.Forgets name) (constant : Bool) :
    (c.factor name constant).1.Misled := by
  obtain ⟨pos, hlookup, hne⟩ := h
  have hdecl : declaration name (c.fs :: c.parents) = some (0, pos) := by
    simp only [declaration, hlookup]
  have hnote : ∀ {f : SQFuncState} {operand : Operand}, operand ≠ .local pos →
      ∃ o ∈ f.occurrences ++ [⟨name, operand, declaration name (c.fs :: c.parents)⟩], o.Misled :=
    fun hoperand => ⟨_, List.mem_append_right _ (List.mem_singleton_self _), pos, hdecl, hoperand⟩
  refine ⟨(c.factor name constant).1.fs, List.mem_cons_self, .inl ?_⟩
  unfold SQCompiler.factor
  dsimp only
  split
  · rename_i pos' hlocal
    refine hnote (f := c.fs) fun heq => hne ?_
    rw [hlocal, Operand.local.inj heq]
  · split
    · exact hnote (by simp)
    · exact hnote (f := c.fs) (by simp)

end Misled

section Straying

variable {c c' : SQCompiler}

/-- What `GetLocalVariable` gives is a register of the function. -/
theorem searchLocal_lt {vlocals : List SQLocalVarInfo} {name : String} {n pos : ℕ}
    (h : SQFuncState.searchLocal vlocals name n = some pos) : pos < n := by
  induction n with
  | zero => cases h
  | succ n ih =>
    unfold SQFuncState.searchLocal at h
    split at h
    · split_ifs at h
      · obtain rfl := Option.some.inj h
        exact Nat.lt_succ_self _
      · exact (ih h).trans (Nat.lt_succ_self _)
    · exact (ih h).trans (Nat.lt_succ_self _)

/-- The temporary takes the register of the latest declaration with it. -/
theorem forgets_popTarget {names : List (Option String)} {declared : List String} {name : String}
    (h : ValidChain (c.fs :: c.parents))
    (hnames : c.fs.names = names ++ none :: (declared ++ [name]).map some) :
    (c.modify (·.popTarget names.length)).Forgets name := by
  refine ⟨(names ++ none :: declared.map some).length, ?_, fun hlocal => ?_⟩
  · have hsplit : c.fs.names = (names ++ none :: declared.map some) ++ [some name] := by
      rw [hnames, List.map_append, List.append_assoc]
      rfl
    rw [SQCompiler.modify, popTarget_visible, h.1.visible, hsplit, named_concat]
    exact List.lookup_cons_self
  · have hlt := searchLocal_lt hlocal
    rw [← SQFuncState.names_length, SQCompiler.modify, names_popTarget hnames] at hlt
    simp at hlt

/-- Something in the function under compilation is seen from outside when it is done. -/
theorem SQCompiler.Misled.buildProto (h : c.Misled) :
    c.buildProto.Misled ∨ c.fs.asserted = false ∨ ∃ fs ∈ c.parents, fs.Misled := by
  obtain ⟨fs, hfs, hmisled⟩ := h
  obtain rfl | hfs := List.mem_cons.mp hfs
  · obtain ⟨o, ho, h⟩ | ⟨f, hf, h⟩ | h := hmisled
    · exact .inl (.here ho h)
    · exact .inl (.inner hf h)
    · exact .inr (.inl h)
  · exact .inr (.inr ⟨fs, hfs, hmisled⟩)

/-- What is misled when a function ends stays so. -/
theorem SQCompiler.Misled.pushFunction {fs parent : SQFuncState} {rest : List SQFuncState}
    (h : SQCompiler.Misled ⟨fs, parent :: rest⟩) :
    SQCompiler.Misled ⟨parent.pushFunction ⟨fs, parent :: rest⟩, rest⟩ := by
  obtain hproto | hasserted | ⟨fs', hfs', hmisled⟩ := h.buildProto
  · exact ⟨_, List.mem_cons_self,
      .inr (.inl ⟨_, List.mem_append_right _ (List.mem_singleton_self _), hproto⟩)⟩
  · refine ⟨_, List.mem_cons_self, .inr (.inr ?_)⟩
    have hand : (parent.asserted && fs.asserted) = false := by
      rw [hasserted]
      exact Bool.and_false _
    exact hand
  · obtain rfl | hfs' := List.mem_cons.mp hfs'
    · exact ⟨_, List.mem_cons_self, hmisled.keep (keeps_pushFunction _ _)⟩
    · exact ⟨fs', List.mem_cons_of_mem _ hfs', hmisled⟩

/-- The identifier that is put after it is misled. -/
theorem SQCompiler.Forgets.identifier {name : String} (h : c.Forgets name) :
    ((Item.identifier name false .nil).compile c).Misled :=
  (h.factor false).keep (popTarget_keepAll _ _)

/-- The rest of a block begins with the identifier. -/
theorem SQCompiler.Forgets.items {name : String} (h : c.Forgets name) (items : Items) :
    ((items.fill name).compile c).Misled := by
  cases items with
  | nil => exact h.identifier.keep (Items.keepAll _ _)
  | cons item items => exact h.identifier.keep (Items.keepAll _ _)

/-- What is put between two parts leaves a function with a parameter as it is. -/
theorem compiled_between (h : ValidChain (c.fs :: c.parents)) (hc : c.fs.FirstNamed)
    (name : String) :
    Compiled [] c ((Item.slot .nil).compile ((Item.identifier name false .nil).compile c)) := by
  have hname := (Item.identifier name false .nil).compiled c trivial h hc
  exact hname.trans ((Item.slot .nil).compiled _ trivial hname.valid (hname.firstNamed hc))

/-- The function statement at the beginning of a function without parameters pops a register that
there is not. -/
theorem misled_parameterless (h : ValidChain (c.fs :: c.parents)) (hc : c.fs.vlocals = [])
    (name : String) (items : Items) : ((items.fill name).compile c).Misled := by
  have hpop : ∀ (fs : SQFuncState) (npos : ℕ), fs.vlocals = [] →
      (fs.popTarget npos).vlocals = [] ∧ (fs.popTarget npos).asserted = false := by
    intro fs npos hfs
    rw [SQFuncState.popTarget, hfs, List.getElem?_nil]
    exact ⟨rfl, rfl⟩
  have hname : ((Item.identifier name false .nil).compile c).fs.vlocals = [] := by
    have hnames := (compiled_factor h name false).names
    rw [List.append_nil, SQFuncState.names, SQFuncState.names, hc, List.map_nil,
      List.map_eq_nil_iff] at hnames
    unfold Item.compile
    dsimp only
    generalize (c.factor name false).2 = target
    cases target with
    | none => exact hnames
    | some npos => exact (hpop _ npos hnames).1
  have hslot : ((Item.slot .nil).compile ((Item.identifier name false .nil).compile c)).Misled :=
    ⟨_, List.mem_cons_self, .inr (.inr (hpop _ 0 hname).2)⟩
  cases items with
  | nil => exact hslot
  | cons item items => exact hslot.keep (Items.keepAll _ _)

mutual

/-- A declaration among temporaries, or a function without parameters, makes some identifier stand
for something else. -/
theorem Item.strays {item : Item} (h : ¬item.Orderly) : ∃ name, ∀ c : SQCompiler,
    ValidChain (c.fs :: c.parents) → c.fs.FirstNamed →
      ((item.fill name).compile c).Misled ∨ ((item.fill name).compile c).Forgets name := by
  cases item with
  | identifier n constant inner =>
    obtain ⟨name, hmisled⟩ := Items.strays h
    refine ⟨name, fun c hc hfirst => .inl ?_⟩
    have hname := compiled_factor hc n constant
    unfold Item.fill Item.compile
    exact (hmisled _ hname.valid (hname.firstNamed hfirst)).keep (popTarget_keepAll _ _)
  | slot inner =>
    obtain ⟨name, hmisled⟩ := Items.strays h
    refine ⟨name, fun c hc hfirst => .inl ?_⟩
    unfold Item.fill Item.compile
    exact (hmisled c hc hfirst).keep (popTarget_keepAll _ _)
  | declare _ => exact absurd trivial h
  | temporary inner =>
    by_cases hinner : inner.Orderly
    · obtain hnil | ⟨declared, name, hdeclared⟩ := inner.declared.eq_nil_or_concat
      · exact absurd ⟨hinner, hnil⟩ h
      · refine ⟨name, fun c hc hfirst => .inr ?_⟩
        have hpush := compiled_pushTemporary hc
        have hfill := hpush.trans ((inner.fill name).compiled _ (inner.orderly_fill name hinner)
          hpush.valid (hpush.firstNamed hfirst))
        rw [inner.declared_fill name, hdeclared, List.concat_eq_append] at hfill
        unfold Item.fill Item.compile
        rw [← SQFuncState.names_length]
        exact forgets_popTarget hfill.valid hfill.names
    · obtain ⟨name, hmisled⟩ := Items.strays hinner
      refine ⟨name, fun c hc hfirst => .inl ?_⟩
      have hpush := compiled_pushTemporary hc
      unfold Item.fill Item.compile
      exact (hmisled _ hpush.valid (hpush.firstNamed hfirst)).keep
        (keepAll_modify (keeps_popTarget _ _))
  | block inner =>
    obtain ⟨name, hmisled⟩ := Items.strays h
    refine ⟨name, fun c hc hfirst => .inl ?_⟩
    unfold Item.fill Item.compile
    exact (hmisled c hc hfirst).keep (keepAll_modify (.of_eq rfl rfl rfl))
  | foreach container temporary idxname valname body =>
    have hend : ∀ {c c' : SQCompiler} (npos : ℕ), c'.Misled →
        ((if temporary then c'.modify (·.popTarget npos) else c').endScope c).Misled := by
      intro c c' npos hc'
      have hpop : KeepAll (c'.fs :: c'.parents)
          ((if temporary then c'.modify (·.popTarget npos) else c').fs ::
            (if temporary then c'.modify (·.popTarget npos) else c').parents) := by
        split
        · exact keepAll_modify (keeps_popTarget _ _)
        · exact .rfl
      exact (hc'.keep hpop).keep (keepAll_modify (.of_eq rfl rfl rfl))
    by_cases hcontainer : container.Orderly
    · obtain ⟨name, hmisled⟩ := Items.strays fun hbody => h ⟨hcontainer, hbody⟩
      refine ⟨name, fun c hc hfirst => .inl (hend _ ?_)⟩
      have hfill := (container.fill name).compiled c (container.orderly_fill name hcontainer) hc
        hfirst
      obtain ⟨_, _, hhead⟩ := compiled_foreachHead hfill.valid temporary idxname valname
      exact hmisled _ hhead.valid ((hfill.trans hhead).firstNamed hfirst)
    · obtain ⟨name, hmisled⟩ := Items.strays hcontainer
      refine ⟨name, fun c hc hfirst => .inl (hend _ ?_)⟩
      refine SQCompiler.Misled.keep ?_ (Items.keepAll _ _)
      refine SQCompiler.Misled.keep ?_ (keepAll_modify (.of_eq rfl rfl rfl))
      split
      · exact (hmisled c hc hfirst).keep (keepAll_modify (.of_eq rfl rfl rfl))
      · exact hmisled c hc hfirst
  | function parameters body =>
    obtain ⟨name, hmisled⟩ : ∃ name, ∀ c : SQCompiler, ValidChain (c.fs :: c.parents) →
        ((body.fill name).compile ⟨.create parameters, c.fs :: c.parents⟩).Misled := by
      by_cases hparameters : parameters = []
      · subst hparameters
        refine ⟨"", fun c hc => misled_parameterless ⟨valid_create _ _, hc⟩ rfl _ _⟩
      · obtain ⟨name, hmisled⟩ := Items.strays fun hbody => h ⟨hparameters, hbody⟩
        exact ⟨name, fun c hc =>
          hmisled _ ⟨valid_create _ _, hc⟩ (firstNamed_create hparameters)⟩
    refine ⟨name, fun c hc _ => .inl ?_⟩
    have hbody := hmisled c hc
    have hkeep := (body.fill name).keepAll ⟨.create parameters, c.fs :: c.parents⟩
    unfold Item.fill Item.compile
    dsimp only
    generalize Items.compile (body.fill name) ⟨.create parameters, c.fs :: c.parents⟩ = child
      at hbody hkeep
    obtain ⟨fs, parents⟩ := child
    cases hkeep with
    | cons _ hparents =>
      cases hparents with
      | cons hparent hrest => exact hbody.pushFunction

theorem Items.strays {items : Items} (h : ¬items.Orderly) : ∃ name, ∀ c : SQCompiler,
    ValidChain (c.fs :: c.parents) → c.fs.FirstNamed → ((items.fill name).compile c).Misled := by
  cases items with
  | nil => exact absurd trivial h
  | cons item items =>
    by_cases hitem : item.Orderly
    · obtain ⟨name, hmisled⟩ := Items.strays fun hitems => h ⟨hitem, hitems⟩
      refine ⟨name, fun c hc hfirst => ?_⟩
      have hbetween := compiled_between hc hfirst name
      have hfill := hbetween.trans ((item.fill name).compiled _ (item.orderly_fill name hitem)
        hbetween.valid (hbetween.firstNamed hfirst))
      exact hmisled _ hfill.valid (hfill.firstNamed hfirst)
    · obtain ⟨name, hstrays⟩ := Item.strays hitem
      refine ⟨name, fun c hc hfirst => ?_⟩
      have hbetween := compiled_between hc hfirst name
      obtain hmisled | hforgets := hstrays _ hbetween.valid (hbetween.firstNamed hfirst)
      · exact hmisled.keep (Items.keepAll _ _)
      · exact hforgets.items items

end

end Straying

end Squirt.Scoping
