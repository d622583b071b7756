import Squirt.DefinedTypes

/-!
# Compiling an assembly

`sq_compilestatic`, which compiles a list of sources and pushes a closure for each. The compiler
and the reader of the sources are parameters; what the compiler keeps between two sources is its
state.
-/

namespace Squirt

structure SQCompileUnit (FuncProto : Type*) where
  funcproto : FuncProto
  astroot : SQAstNode

inductive SQRESULT
  | SQ_OK
  | SQ_ERROR
  deriving DecidableEq

section Model

variable {Source FuncProto σ : Type*} (compile : Source → σ → Option (SQCompileUnit FuncProto) × σ)
  (hash : String → ℕ)

/-- The loop over the sources, each none if it does not open: the units of `objlist`, and whether
`bFailed` is set. -/
def compileSources : List (Option Source) → σ → List (SQCompileUnit FuncProto) × Bool
  | [], _ => ([], false)
  | none :: sources, st => compileSources sources st
  | some src :: sources, st =>
    match compile src st with
    | (some unit, st) =>
      let (objlist, bFailed) := compileSources sources st
      (unit :: objlist, bFailed)
    | (none, _) => ([], true)

/-- The loop over the units: the closures on the stack, the types, and what `CollectDefinedTypes`
and `CheckTypes` return for each unit, which nothing reads -/
def pushUnits (closure : FuncProto → SQObject) :
    List (SQCompileUnit FuncProto) → List SQObject → TypeTables hash →
      List SQObject × TypeTables hash × List (Bool × Bool)
  | [], stack, types => (stack, types, [])
  | unit :: objlist, stack, types =>
    let (types, collected) := unit.astroot.collectDefinedTypes 0 "" types
    let checked := unit.astroot.checkTypes.isSome
    let (stack, types, results) := pushUnits closure objlist (stack ++ [closure unit.funcproto]) types
    (stack, types, (collected, checked) :: results)

/-- `sq_compilestatic`; `opensrcfunc` and `compile` are called in the order of the sources, and
`stack` has its top last. -/
def sq_compilestatic (closure : FuncProto → SQObject) (opensrcfunc : ℕ → Option Source)
    (numsources : ℕ) (st : σ) (stack : List SQObject) : SQRESULT × List SQObject :=
  let sources := (List.range numsources).map opensrcfunc
  let (objlist, _bFailed) := compileSources compile sources st
  let (stack, _types, _results) := pushUnits hash closure objlist stack [.create []]
  (.SQ_OK, stack)

end Model

section Contract

variable {Source FuncProto σ : Type*} (compile : Source → σ → Option (SQCompileUnit FuncProto) × σ)
  (hash : String → ℕ)

/-- The units of all sources, none if one does not open or compile. Not in the source. -/
def allUnits : List (Option Source) → σ → Option (List (SQCompileUnit FuncProto))
  | [], _ => some []
  | none :: _, _ => none
  | some src :: sources, st =>
    match compile src st with
    | (some unit, st) => (allUnits sources st).map (unit :: ·)
    | (none, _) => none

/-- The types can be collected and checked, unit by unit. -/
def Analysed : List (SQCompileUnit FuncProto) → TypeTables hash → Prop
  | [], _ => True
  | unit :: objlist, types =>
    (unit.astroot.collectDefinedTypes 0 "" types).2 = true ∧ unit.astroot.checkTypes.isSome ∧
      Analysed objlist (unit.astroot.collectDefinedTypes 0 "" types).1

/-- All or nothing: the closures of all units in order, or an error, with nothing pushed unless it
is the analysis that fails -/
def AllOrNothing (closure : FuncProto → SQObject) (units : Option (List (SQCompileUnit FuncProto)))
    (stack : List SQObject) (res : SQRESULT × List SQObject) : Prop :=
  match units with
  | none => res = (.SQ_ERROR, stack)
  | some objlist =>
    (Analysed hash objlist [.create []] →
      res = (.SQ_OK, stack ++ objlist.map fun u => closure u.funcproto)) ∧
      (¬Analysed hash objlist [.create []] → res.1 = .SQ_ERROR)

end Contract

section Correctness

variable {Source FuncProto σ : Type*} {compile : Source → σ → Option (SQCompileUnit FuncProto) × σ}
  {hash : String → ℕ} {closure : FuncProto → SQObject}

private theorem compileSources_eq {sources : List (Option Source)} {st : σ}
    {objlist : List (SQCompileUnit FuncProto)} (h : allUnits compile sources st = some objlist) :
    compileSources compile sources st = (objlist, false) := by
  induction sources generalizing st objlist with
  | nil =>
    cases h
    rfl
  | cons source sources ih =>
    cases source with
    | none => cases h
    | some src =>
      unfold allUnits at h
      unfold compileSources
      split at h
      · rename_i unit st' heq
        obtain ⟨rest, hrest, rfl⟩ := Option.map_eq_some_iff.mp h
        rw [ih hrest]
      · cases h

private theorem pushUnits_stack (objlist : List (SQCompileUnit FuncProto)) (stack : List SQObject)
    (types : TypeTables hash) : (pushUnits hash closure objlist stack types).1 =
      stack ++ objlist.map fun unit => closure unit.funcproto := by
  induction objlist generalizing stack types with
  | nil => exact (List.append_nil stack).symm
  | cons unit objlist ih =>
    refine (ih _ _).trans ?_
    rw [List.append_assoc, List.map_cons, List.singleton_append]

/-- `sq_compilestatic` is all-or-nothing, if and only if every source opens and compiles and the
types of every unit can be collected and checked. -/
theorem sq_compilestatic_allOrNothing_iff
    (compile : Source → σ → Option (SQCompileUnit FuncProto) × σ) (hash : String → ℕ)
    (closure : FuncProto → SQObject) (opensrcfunc : ℕ → Option Source) (numsources : ℕ) (st : σ)
    (stack : List SQObject) :
    AllOrNothing hash closure (allUnits compile ((List.range numsources).map opensrcfunc) st) stack
        (sq_compilestatic compile hash closure opensrcfunc numsources st stack) ↔
      ∃ objlist, allUnits compile ((List.range numsources).map opensrcfunc) st = some objlist ∧
        Analysed hash objlist [.create []] := by
  cases hunits : allUnits compile ((List.range numsources).map opensrcfunc) st with
  | none =>
    refine iff_of_false (fun h => ?_) (by simp)
    exact absurd (congrArg Prod.fst h) (show SQRESULT.SQ_OK ≠ .SQ_ERROR by decide)
  | some objlist =>
    constructor
    · rintro ⟨-, herror⟩
      refine ⟨objlist, rfl, ?_⟩
      by_contra hfails
      exact absurd (herror hfails) (show SQRESULT.SQ_OK ≠ .SQ_ERROR by decide)
    · rintro ⟨_, ⟨⟩, hanalysed⟩
      refine ⟨fun _ => ?_, fun hfails => absurd hanalysed hfails⟩
      unfold sq_compilestatic
      dsimp only
      rw [compileSources_eq hunits]
      exact congrArg (Prod.mk SQRESULT.SQ_OK) (pushUnits_stack objlist stack [.create []])

end Correctness

/-- A single source that does not open -/
theorem sq_compilestatic_unopened :
    ¬AllOrNothing String.length id (allUnits (fun () () => (none, ())) [none] ()) []
      (sq_compilestatic (fun () () => (none, ())) String.length id (fun _ => none) 1 () []) := by
  intro h
  exact absurd (congrArg Prod.fst h) (show SQRESULT.SQ_OK ≠ .SQ_ERROR by decide)

end Squirt
