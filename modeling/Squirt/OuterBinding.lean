import Squirt.ScopeResolution

/-!
# What free variables are bound to

`CLOSURE_OP` and `FindOuter`, and the closures that they make one from the other: the operand of a
free variable is the `SQOuter` of the slot of its declaration.
-/

namespace Squirt.Scoping

/-- `idx` is the slot of the stack it was made for. -/
structure SQOuter where
  id : ℕ
  idx : ℕ
  deriving DecidableEq

/-- `nouters` is how many there have been. -/
structure SQVM where
  openouters : List SQOuter
  nouters : ℕ

structure SQClosure where
  function : SQFunctionProto
  outervalues : List SQOuter

structure CallInfo where
  closure : SQClosure
  stackbase : ℕ

/-- The loop of `FindOuter` over `_openouters`, and what is inserted after it -/
def insertOuter (stackindex id : ℕ) : List SQOuter → SQOuter × List SQOuter
  | [] => (⟨id, stackindex⟩, [⟨id, stackindex⟩])
  | p :: rest =>
    if p.idx ≥ stackindex then
      if p.idx = stackindex then (p, p :: rest)
      else
        let (otr, rest) := insertOuter stackindex id rest
        (otr, p :: rest)
    else (⟨id, stackindex⟩, ⟨id, stackindex⟩ :: p :: rest)

def SQVM.findOuter (vm : SQVM) (stackindex : ℕ) : SQOuter × SQVM :=
  let (otr, openouters) := insertOuter stackindex vm.nouters vm.openouters
  (otr, ⟨openouters, vm.nouters + 1⟩)

/-- The `switch` of `CLOSURE_OP`; an index out of range is not defined. -/
def bindOuter (ci : CallInfo) (v : SQOuterVar) (vm : SQVM) : Option (SQOuter × SQVM) :=
  match v.type with
  | .otLOCAL => some (vm.findOuter (ci.stackbase + v.src))
  | .otOUTER => (ci.closure.outervalues[v.src]?).map fun otr => (otr, vm)

/-- The loop of `CLOSURE_OP` over `_outervalues` of the function -/
def bindOuters (ci : CallInfo) : List SQOuterVar → SQVM → Option (List SQOuter × SQVM)
  | [], vm => some ([], vm)
  | v :: vars, vm => do
    let (otr, vm) ← bindOuter ci v vm
    let (outers, vm) ← bindOuters ci vars vm
    return (otr :: outers, vm)

/-- `CLOSURE_OP` in the activation `ci`, less the default parameters -/
def closureOp (ci : CallInfo) (func : SQFunctionProto) (vm : SQVM) : Option (SQClosure × SQVM) :=
  (bindOuters ci func.outervalues vm).map fun (outers, vm) => (⟨func, outers⟩, vm)

/-- The closures of a script: that of the script itself, and those that `_OP_CLOSURE` makes in an
activation of such a closure, in any state of the stack. The list are the activation that made it,
the one that made the closure of that activation, and so on. -/
inductive Created (main : SQFunctionProto) : SQClosure → List CallInfo → Prop
  | main : Created main ⟨main, []⟩ []
  | closure {c c' : SQClosure} {chain : List CallInfo} {func : SQFunctionProto} {stackbase : ℕ}
    {vm vm' : SQVM} (hc : Created main c chain) (hfunc : func ∈ c.function.functions)
    (hop : closureOp ⟨c, stackbase⟩ func vm = some (c', vm')) :
    Created main c' (⟨c, stackbase⟩ :: chain)

/-- In an activation of `c` the operand stands for the variable of the innermost declaration: its
register there, or the `SQOuter` of its slot in the activation that it is declared in. -/
def Occurrence.Denotes (o : Occurrence) (c : SQClosure) (chain : List CallInfo) : Prop :=
  match o.declaration with
  | none => o.operand = .other
  | some (0, pos) => o.operand = .local pos
  | some (level + 1, pos) => ∃ i otr ci, o.operand = .outer i ∧ c.outervalues[i]? = some otr ∧
    chain[level]? = some ci ∧ otr.idx = ci.stackbase + pos

section FindOuter

variable {openouters : List SQOuter} {stackindex id : ℕ}

/-- The `SQOuter` is that of the slot. -/
theorem insertOuter_idx : (insertOuter stackindex id openouters).1.idx = stackindex := by
  induction openouters with
  | nil => rfl
  | cons p rest ih =>
    unfold insertOuter
    split_ifs with _ heq
    · exact heq
    · exact ih
    · rfl

end FindOuter

section Binding

variable {ci : CallInfo} {vars : List SQOuterVar} {vm vm' : SQVM} {outers : List SQOuter}

theorem getElem?_of_forall₂ {α β : Type*} {R : α → β → Prop} {l : List α} {l' : List β}
    (h : List.Forall₂ R l l') {i : ℕ} {a : α} (ha : l[i]? = some a) :
    ∃ b, l'[i]? = some b ∧ R a b := by
  induction h generalizing i with
  | nil => cases ha
  | cons hab _ ih =>
    cases i with
    | zero =>
      obtain rfl := Option.some.inj ha
      exact ⟨_, rfl, hab⟩
    | succ i => exact ih ha

/-- What an entry is bound to. -/
structure Bound (ci : CallInfo) (v : SQOuterVar) (otr : SQOuter) : Prop where
  slot : v.type = .otLOCAL → otr.idx = ci.stackbase + v.src
  outer : v.type = .otOUTER → ci.closure.outervalues[v.src]? = some otr

private theorem bindOuter_bound {v : SQOuterVar} {otr : SQOuter}
    (h : bindOuter ci v vm = some (otr, vm')) : Bound ci v otr := by
  refine ⟨fun htype => ?_, fun htype => ?_⟩
  · simp only [bindOuter, htype] at h
    obtain rfl : (vm.findOuter (ci.stackbase + v.src)).1 = otr :=
      congrArg Prod.fst (Option.some.inj h)
    exact insertOuter_idx
  · simp only [bindOuter, htype] at h
    obtain ⟨otr', hget, heq⟩ := Option.map_eq_some_iff.mp h
    obtain ⟨rfl, -⟩ := Prod.mk.inj heq
    exact hget

private theorem bindOuters_bound (h : bindOuters ci vars vm = some (outers, vm')) :
    List.Forall₂ (Bound ci) vars outers := by
  induction vars generalizing vm outers with
  | nil =>
    obtain ⟨rfl, -⟩ := Prod.mk.inj (Option.some.inj h)
    exact .nil
  | cons v vars ih =>
    obtain ⟨⟨otr, vm₁⟩, hotr, h⟩ := Option.bind_eq_some_iff.mp h
    obtain ⟨⟨outers', vm₂⟩, hrest, hpure⟩ := Option.bind_eq_some_iff.mp h
    obtain ⟨rfl, rfl⟩ := Prod.mk.inj (Option.some.inj hpure)
    exact .cons (bindOuter_bound hotr) (ih hrest)

/-- Entries whose index is in range can be bound. -/
theorem bindOuters_isSome
    (h : ∀ v ∈ vars, v.type = .otOUTER → v.src < ci.closure.outervalues.length) :
    (bindOuters ci vars vm).isSome := by
  induction vars generalizing vm with
  | nil => rfl
  | cons v vars ih =>
    have hrest : ∀ vm, ∃ res, bindOuters ci vars vm = some res := fun vm =>
      Option.isSome_iff_exists.mp (ih fun w hw => h w (List.mem_cons_of_mem _ hw))
    obtain ⟨⟨otr, vm₁⟩, hotr⟩ : ∃ res, bindOuter ci v vm = some res := by
      cases htype : v.type with
      | otLOCAL => exact ⟨_, by simp only [bindOuter, htype]; rfl⟩
      | otOUTER =>
        have hlt := h v List.mem_cons_self htype
        exact ⟨_, by simp only [bindOuter, htype, List.getElem?_eq_getElem hlt]; rfl⟩
    obtain ⟨res, hres⟩ := hrest vm₁
    simp [bindOuters, hotr, hres]

end Binding

section Closures

variable {main : SQFunctionProto} {c : SQClosure} {chain : List CallInfo}

/-- The `_outervalues` of the functions of activations -/
def functionChain (chain : List CallInfo) : List (List SQOuterVar) :=
  chain.map (·.closure.function.outervalues)

/-- What holds of the closures of a script. -/
structure SQClosure.Follows (c : SQClosure) (chain : List CallInfo) : Prop where
  function : c.function.Resolved (functionChain chain)
  length : c.outervalues.length = c.function.outervalues.length
  outervalues : ∀ i level pos,
    Leads (c.function.outervalues :: functionChain chain) i level pos → ∃ otr ci,
      c.outervalues[i]? = some otr ∧ chain[level]? = some ci ∧ otr.idx = ci.stackbase + pos

theorem SQFunctionProto.Resolved.of_mem {p f : SQFunctionProto} {vars : List (List SQOuterVar)}
    (h : p.Resolved vars) (hf : f ∈ p.functions) : f.Resolved (p.outervalues :: vars) := by
  cases h with
  | mk _ _ functions => exact functions f hf

/-- `CLOSURE_OP` continues the chain. -/
theorem SQClosure.Follows.closureOp (h : c.Follows chain) {func : SQFunctionProto} {stackbase : ℕ}
    {vm vm' : SQVM} {c' : SQClosure} (hfunc : func ∈ c.function.functions)
    (hop : Scoping.closureOp ⟨c, stackbase⟩ func vm = some (c', vm')) :
    c'.Follows (⟨c, stackbase⟩ :: chain) := by
  obtain ⟨⟨outers, vm₁⟩, hbind, heq⟩ := Option.map_eq_some_iff.mp hop
  obtain ⟨rfl, rfl⟩ := Prod.mk.inj heq
  have hbound := bindOuters_bound hbind
  refine ⟨h.function.of_mem hfunc, hbound.length_eq.symm, fun i level pos hleads => ?_⟩
  obtain ⟨v, hv, hend⟩ := hleads
  obtain ⟨otr, hotr, hv⟩ := getElem?_of_forall₂ hbound hv
  obtain ⟨htype, rfl, rfl⟩ | ⟨htype, l, rfl, hrest⟩ := hend
  · exact ⟨otr, _, hotr, rfl, hv.slot htype⟩
  · obtain ⟨otr', ci, hget, hci, hidx⟩ := h.outervalues _ l pos hrest
    obtain rfl := Option.some.inj ((hv.outer htype).symm.trans hget)
    exact ⟨otr, ci, hotr, hci, hidx⟩

/-- `CLOSURE_OP` finds every entry that it needs. -/
theorem SQClosure.Follows.closureOp_isSome (h : c.Follows chain) {func : SQFunctionProto}
    (hfunc : func ∈ c.function.functions) (stackbase : ℕ) (vm : SQVM) :
    (Scoping.closureOp ⟨c, stackbase⟩ func vm).isSome := by
  rw [Scoping.closureOp, Option.isSome_map]
  refine bindOuters_isSome fun v hv htype => ?_
  cases h.function.of_mem hfunc with
  | mk outervalues _ _ =>
    obtain ⟨i, hi, rfl⟩ := List.mem_iff_getElem.mp hv
    obtain ⟨level, pos, w, hw, hend⟩ := outervalues i hi
    rw [List.getElem?_eq_getElem hi, Option.some.injEq] at hw
    subst hw
    obtain ⟨hlocal, -⟩ | ⟨-, l, -, x, hx, -⟩ := hend
    · rw [htype] at hlocal
      cases hlocal
    · rw [h.length]
      exact (List.getElem?_eq_some_iff.mp hx).1

theorem Created.follows (hmain : main.Resolved []) (hnone : main.outervalues = [])
    (h : Created main c chain) : c.Follows chain := by
  induction h with
  | main =>
    refine ⟨hmain, by rw [hnone]; rfl, fun i level pos hleads => ?_⟩
    obtain ⟨v, hv, -⟩ := hleads
    rw [hnone] at hv
    cases hv
  | closure _ hfunc hop ih => exact ih.closureOp hfunc hop

/-- The operands of a closure stand for the variables of the declarations. -/
theorem SQClosure.Follows.denotes (h : c.Follows chain) {o : Occurrence}
    (ho : o ∈ c.function.occurrences) : o.Denotes c chain := by
  cases h.function with
  | mk _ occurrences _ =>
    have hresolved := occurrences o ho
    unfold Occurrence.Resolved at hresolved
    split at hresolved
    · simp [Occurrence.Denotes, *]
    · simp [Occurrence.Denotes, *]
    · rename_i level pos hdecl
      obtain ⟨i, hi, hleads⟩ := hresolved
      obtain ⟨otr, ci, hotr, hci, hidx⟩ := h.outervalues i level pos hleads
      simp only [Occurrence.Denotes, hdecl]
      exact ⟨i, otr, ci, hi, hotr, hci, hidx⟩

end Closures

end Squirt.Scoping
