import Mathlib.Data.List.Perm.Basic
import Squirt.GuardedRuns
import Squirt.StatementCode

/-!
# What the compiler records about local variables

`SQFuncState` with the names of its local variables and `_localvarinfos`, the intervals of the code
in which they are variables. They are recorded over any sequence of what the compiler asks of
`SQFuncState`, while the optimizer merges instructions. Positions are not bounded to 64 bits.
-/

namespace Squirt.LocalNames

open SQCompiler (SQInstruction)

/-- A temporary has no name. -/
structure SQLocalVarInfo where
  name : Option String
  start_op : ℤ
  end_op : ℤ
  pos : ℕ
  deriving DecidableEq

def UINT_MINUS_ONE : ℤ := 0xFFFFFFFFFFFFFFFF

namespace SQLocalVarInfo

/-- What the rest of `SQFuncState` asks of a local variable -/
def brief (lvi : SQLocalVarInfo) : SQCompiler.SQLocalVarInfo :=
  ⟨lvi.name.isSome, lvi.end_op = UINT_MINUS_ONE⟩

/-- The name and the register of what is not a temporary -/
def entry (lvi : SQLocalVarInfo) : Option (String × ℕ) := lvi.name.map (·, lvi.pos)

/-- A position as an unsigned integer of 64 bits -/
def unsigned (pos : ℤ) : ℤ := if pos < 0 then pos + 2 ^ 64 else pos

/-- `_start_op <= nop && _end_op >= nop` -/
def covers (nop : ℤ) (lvi : SQLocalVarInfo) : Bool := lvi.start_op ≤ nop && lvi.end_op ≥ nop

end SQLocalVarInfo

/-- `code` is the rest of `SQFuncState`, `outervalues` are the names of `_outervalues`. Not in the
source: for each instruction of the code, `scopes` has the variables and their registers that were
in scope when it was added, and those that were when an instruction was merged into it; `dropped`
are the variables that `PopTarget` took for a temporary. -/
structure SQFuncState where
  code : SQCompiler.SQFuncState
  vlocals : List SQLocalVarInfo
  synced : code.vlocals = vlocals.map SQLocalVarInfo.brief
  localvarinfos : List SQLocalVarInfo
  outervalues : List String
  scopes : List (List (List (String × ℕ)))
  dropped : List SQLocalVarInfo

namespace SQFuncState

variable (fs : SQFuncState)

def create (fusion lineinfo parent : Bool) : SQFuncState where
  code := .create fusion lineinfo parent 0
  vlocals := []
  synced := rfl
  localvarinfos := []
  outervalues := []
  scopes := []
  dropped := []

/-- The variables that are in scope, with their registers; not in the source -/
def scope : List (String × ℕ) :=
  fs.vlocals.zipIdx.filterMap fun (lvi, pos) => lvi.name.map (·, pos)

/-- What `SetStackSize` makes of a variable that it pops -/
def close (lvi : SQLocalVarInfo) : SQLocalVarInfo := 
  { lvi with end_op := SQLocalVarInfo.unsigned fs.code.getCurrentPos }

private theorem addInstruction_vlocals (code : SQCompiler.SQFuncState) (i : SQInstruction) :
    (code.addInstruction i).vlocals = code.vlocals := by
  unfold SQCompiler.SQFuncState.addInstruction
  split
  · split
    · split <;> rfl
    · rfl
  · rfl

def addInstruction (i : SQInstruction) : SQFuncState :=
  let code := fs.code.addInstruction i
  { fs with
    code
    synced := (addInstruction_vlocals fs.code i).trans fs.synced
    scopes :=
      if fs.code.instructions.length < code.instructions.length then fs.scopes ++ [[fs.scope]]
      else fs.scopes.modify (fs.scopes.length - 1) (· ++ [fs.scope]) }

def popInstructions (size : ℕ) : SQFuncState :=
  { fs with
    code := fs.code.popInstructions size
    synced := fs.synced
    scopes := fs.scopes.take (fs.scopes.length - size) }

/-- `SetIntructionParam` and `SetIntructionParams` -/
def modifyInstruction (pos : ℤ) (f : SQInstruction → SQInstruction) : SQFuncState :=
  { fs with
    code := fs.code.modifyInstruction pos f
    synced := by
      unfold SQCompiler.SQFuncState.modifyInstruction
      split
      · exact fs.synced
      · exact fs.synced }

def snoozeOpt : SQFuncState := { fs with code := fs.code.snoozeOpt, synced := fs.synced }

/-- `_returnexp = retexp` -/
def setReturnExp (retexp : ℤ) : SQFuncState :=
  { fs with code := { fs.code with returnexp := retexp }, synced := fs.synced }

/-- `PushTarget(n)`, and `PushTarget()` for `none` -/
def pushTarget : Option ℕ → SQFuncState
  | some n => { fs with code := fs.code.pushTarget (some n), synced := fs.synced }
  | none =>
    { fs with
      code := fs.code.pushTarget none
      vlocals := fs.vlocals ++ [⟨none, 0, 0, 0⟩]
      synced := by
        rw [SQCompiler.SQFuncState.pushTarget, fs.synced, List.map_append]
        rfl }

/-- The target is a temporary, so `PopTarget` takes the last of `_vlocals`. -/
def popsLocal : Bool :=
  match fs.vlocals[fs.code.topTarget]? with
  | some lvi => lvi.name.isNone
  | none => false

theorem popTarget_vlocals : fs.code.popTarget.vlocals =
    (if fs.popsLocal then fs.vlocals.dropLast else fs.vlocals).map SQLocalVarInfo.brief := by
  unfold SQCompiler.SQFuncState.popTarget popsLocal
  dsimp only
  rw [fs.synced, List.getElem?_map]
  cases fs.vlocals[fs.code.topTarget]? with
  | none => rfl
  | some lvi =>
    cases hname : lvi.name with
    | none => simp [SQLocalVarInfo.brief, hname, List.map_dropLast]
    | some name => simp [SQLocalVarInfo.brief, hname]

def popTarget : SQFuncState :=
  { fs with
    code := fs.code.popTarget
    vlocals := if fs.popsLocal then fs.vlocals.dropLast else fs.vlocals
    synced := fs.popTarget_vlocals
    dropped := if fs.popsLocal then
        (fs.vlocals.getLast?.toList.filter fun lvi => lvi.name.isSome).map fs.close ++ fs.dropped
      else fs.dropped }

private theorem discardTarget_vlocals (code : SQCompiler.SQFuncState) :
    code.discardTarget.vlocals = code.popTarget.vlocals := by
  unfold SQCompiler.SQFuncState.discardTarget
  dsimp only
  split
  · split <;> rfl
  · rfl

def discardTarget : SQFuncState :=
  { fs.popTarget with
    code := fs.code.discardTarget
    synced := (discardTarget_vlocals fs.code).trans fs.popTarget_vlocals }

def pushLocalVariable (name : String) : SQFuncState :=
  { fs with
    code := fs.code.pushLocalVariable
    vlocals := fs.vlocals ++ [⟨some name, fs.code.getCurrentPos + 1, 0, fs.vlocals.length⟩]
    synced := by
      rw [SQCompiler.SQFuncState.pushLocalVariable, fs.synced, List.map_append]
      rfl }

private theorem modify_brief (vlocals : List SQLocalVarInfo) (pos : ℕ) :
    (vlocals.map SQLocalVarInfo.brief).modify pos (fun lvi => { lvi with outer := true }) =
      (vlocals.modify pos fun lvi => { lvi with end_op := UINT_MINUS_ONE }).map
        SQLocalVarInfo.brief := by
  apply List.ext_getElem?
  intro i
  rw [List.getElem?_modify, List.getElem?_map, List.getElem?_map, List.getElem?_modify]
  cases vlocals[i]? with
  | none => rfl
  | some lvi =>
    by_cases h : pos = i
    · simp [h, SQLocalVarInfo.brief]
    · simp [h]

def markLocalAsOuter (pos : ℕ) : SQFuncState :=
  { fs with
    code := fs.code.markLocalAsOuter pos
    vlocals := fs.vlocals.modify pos fun lvi => { lvi with end_op := UINT_MINUS_ONE }
    synced := by
      rw [SQCompiler.SQFuncState.markLocalAsOuter, fs.synced]
      exact modify_brief fs.vlocals pos }

/-- `_outervalues.push_back(SQOuterVar(name, ..))` -/
def pushOuter (name : String) : SQFuncState := { fs with outervalues := fs.outervalues ++ [name] }

/-- `SetStackSize`; what it pops first is recorded first. -/
def setStackSize (n : ℕ) : SQFuncState :=
  { fs with
    code := fs.code.setStackSize n
    vlocals := fs.vlocals.take n
    synced := by
      rw [SQCompiler.SQFuncState.setStackSize, fs.synced, List.map_take]
    localvarinfos := fs.localvarinfos ++
      ((fs.vlocals.drop n).reverse.filter fun lvi => lvi.name.isSome).map fs.close }

end SQFuncState

/-- What the compiler asks of `SQFuncState`, one function at a time -/
inductive Request
  | add (i : SQInstruction)
  /-- `PopInstructions` -/
  | popInstructions (size : ℕ)
  /-- `SetIntructionParam` and `SetIntructionParams` -/
  | modifyInstruction (pos : ℤ) (f : SQInstruction → SQInstruction)
  | snoozeOpt
  | setReturnExp (retexp : ℤ)
  /-- `PushTarget(n)`, and `PushTarget()` for `none` -/
  | pushTarget (n : Option ℕ)
  | popTarget
  | discardTarget
  /-- `PushLocalVariable`, in `AddParameter` too -/
  | pushLocalVariable (name : String)
  | markLocalAsOuter (pos : ℕ)
  /-- `_outervalues.push_back(SQOuterVar(name, ..))` -/
  | pushOuter (name : String)
  | setStackSize (n : ℕ)

namespace SQFuncState

variable (fs : SQFuncState)

def step : Request → SQFuncState
  | .add i => fs.addInstruction i
  | .popInstructions size => fs.popInstructions size
  | .modifyInstruction pos f => fs.modifyInstruction pos f
  | .snoozeOpt => fs.snoozeOpt
  | .setReturnExp retexp => fs.setReturnExp retexp
  | .pushTarget n => fs.pushTarget n
  | .popTarget => fs.popTarget
  | .discardTarget => fs.discardTarget
  | .pushLocalVariable name => fs.pushLocalVariable name
  | .markLocalAsOuter pos => fs.markLocalAsOuter pos
  | .pushOuter name => fs.pushOuter name
  | .setStackSize n => fs.setStackSize n

/-- What the compiler asks for, but for the increment of a `for` that declares a variable itself, as
an expression `T x` does, or where `PopTarget` takes one: no variable goes before there is code, and
the code that is taken away for a while, the increment, was added after the last variable was
declared and after the last one went. -/
def Allows : Request → Prop
  | .popInstructions size =>
    (∀ lvi ∈ fs.vlocals, lvi.name ≠ none →
      lvi.start_op ≤ (fs.code.instructions.length - size : ℕ)) ∧
    ∀ lvi ∈ fs.localvarinfos ++ fs.dropped,
      lvi.end_op < (fs.code.instructions.length - size : ℕ)
  | .popTarget | .discardTarget => fs.code.instructions = [] → fs.popsLocal = true →
    ∀ lvi ∈ fs.vlocals.getLast?, lvi.name = none
  | .setStackSize n => fs.code.instructions = [] → ∀ lvi ∈ fs.vlocals.drop n, lvi.name = none
  | _ => True

instance (r : Request) : Decidable (fs.Allows r) :=
  match r with
  | .popInstructions _ => inferInstanceAs (Decidable (_ ∧ _))
  | .popTarget | .discardTarget =>
    inferInstanceAs (Decidable (fs.code.instructions = [] → fs.popsLocal = true →
      ∀ lvi ∈ fs.vlocals.getLast?, lvi.name = none))
  | .setStackSize n =>
    inferInstanceAs (Decidable (fs.code.instructions = [] →
      ∀ lvi ∈ fs.vlocals.drop n, lvi.name = none))
  | .add _ | .modifyInstruction _ _ | .snoozeOpt | .setReturnExp _ | .pushTarget _
  | .pushLocalVariable _ | .markLocalAsOuter _ | .pushOuter _ => .isTrue trivial

/-- What the compiler asks for one after the other -/
def AllowsAll (fs : SQFuncState) : List Request → Prop
  | [] => True
  | r :: rs => fs.Allows r ∧ (fs.step r).AllowsAll rs

instance decidableAllowsAll : (fs : SQFuncState) → (rs : List Request) →
    Decidable (fs.AllowsAll rs)
  | _, [] => .isTrue trivial
  | fs, r :: rs =>
    have := decidableAllowsAll (fs.step r) rs
    inferInstanceAs (Decidable (fs.Allows r ∧ (fs.step r).AllowsAll rs))

/-! ## What is recorded -/

/-- A variable that was popped, at a position in its interval -/
def closedAt (p : ℕ) (lvi : SQLocalVarInfo) : Option (String × ℕ) :=
  if lvi.covers p then lvi.entry else none

/-- A variable that has not been popped yet, at a position from its declaration on -/
def openAt (p : ℕ) (lvi : SQLocalVarInfo) : Option (String × ℕ) :=
  if lvi.start_op ≤ p then lvi.entry else none

/-- The variables at a position, by what has been recorded so far and what is still to be -/
def view (p : ℕ) : List (String × ℕ) :=
  (fs.localvarinfos ++ fs.dropped).filterMap (closedAt p) ++ fs.vlocals.filterMap (openAt p)

/-- At every position of the code the variables are those that were in scope when its instruction
was added. -/
structure Recorded (fs : SQFuncState) : Prop where
  length : fs.scopes.length = fs.code.instructions.length
  opened : ∀ lvi ∈ fs.vlocals, lvi.name ≠ none → lvi.start_op ≤ fs.code.instructions.length
  closed : ∀ lvi ∈ fs.localvarinfos ++ fs.dropped, lvi.end_op < fs.code.instructions.length
  pos : ∀ (i : ℕ) lvi, fs.vlocals[i]? = some lvi → lvi.name ≠ none → lvi.pos = i
  named : ∀ lvi ∈ fs.localvarinfos, lvi.name ≠ none
  scopes : ∀ p merged, fs.scopes[p]? = some merged →
    ∃ first rest, merged = first :: rest ∧ (fs.view p).Perm first

variable {fs}

private theorem recorded_create (fusion lineinfo parent : Bool) :
    Recorded (create fusion lineinfo parent) where
  length := rfl
  opened := nofun
  closed := nofun
  pos := nofun
  named := nofun
  scopes := nofun

/-- The registers of the variables in scope are those that are recorded. -/
theorem scope_eq (hpos : ∀ (i : ℕ) lvi, fs.vlocals[i]? = some lvi → lvi.name ≠ none → lvi.pos = i) :
    fs.scope = fs.vlocals.filterMap SQLocalVarInfo.entry := by
  have hfrom : ∀ (vlocals : List SQLocalVarInfo) (k : ℕ),
      (∀ (i : ℕ) lvi, vlocals[i]? = some lvi → lvi.name ≠ none → lvi.pos = k + i) →
      ((vlocals.zipIdx k).filterMap fun (lvi, pos) => lvi.name.map (·, pos)) =
        vlocals.filterMap SQLocalVarInfo.entry := by
    intro vlocals
    induction vlocals with
    | nil => exact fun _ _ => rfl
    | cons lvi vlocals ih =>
      intro k hk
      have hrest := ih (k + 1) fun i lvi' hi hname => by
        rw [hk (i + 1) lvi' hi hname]
        omega
      have hfirst : lvi.name.map (·, k) = lvi.entry := by
        cases hname : lvi.name with
        | none => simp [SQLocalVarInfo.entry, hname]
        | some name =>
          have hk0 : lvi.pos = k := hk 0 lvi rfl (by simp [hname])
          simp [SQLocalVarInfo.entry, hname, hk0]
      rw [List.zipIdx_cons, List.filterMap_cons, List.filterMap_cons, hrest]
      dsimp only
      rw [hfirst]
  exact hfrom fs.vlocals 0 fun i lvi hi hname => (hpos i lvi hi hname).trans (Nat.zero_add i).symm

/-- The code grows by the instruction, or the instruction is merged into the last one. -/
theorem length_addInstruction (code : SQCompiler.SQFuncState) (i : SQInstruction) :
    (code.addInstruction i).instructions.length = code.instructions.length + 1 ∨
      code.instructions ≠ [] ∧
        (code.addInstruction i).instructions.length = code.instructions.length := by
  have hpos : ∀ pi, code.instructions.getLast? = some pi → code.instructions ≠ [] ∧
      (code.instructions.dropLast ++ [pi]).length = code.instructions.length := by
    intro pi hlast
    have hne : code.instructions ≠ [] := by
      rintro hnil
      rw [hnil] at hlast
      cases hlast
    have hlen := List.length_pos_of_ne_nil hne
    refine ⟨hne, ?_⟩
    rw [List.length_append, List.length_dropLast, List.length_singleton]
    omega
  unfold SQCompiler.SQFuncState.addInstruction
  split
  · next pi hlast =>
    obtain ⟨hne, hlen⟩ := hpos pi hlast
    split
    · split
      · refine .inr ⟨hne, ?_⟩
        simpa using hlen
      · refine .inl ?_
        simp only [List.length_append, List.length_cons, List.length_nil] at hlen ⊢
        omega
    · exact .inl (List.length_append ..)
  · exact .inl (List.length_append ..)

namespace Recorded

/-- Only what is in the code has a view. -/
theorem lt_length (h : Recorded fs) {p : ℕ} {merged : List (List (String × ℕ))}
    (hp : fs.scopes[p]? = some merged) : p < fs.code.instructions.length := by
  rw [← h.length]
  exact (List.getElem?_eq_some_iff.mp hp).1

/-- What was in scope for an instruction that was added last -/
theorem view_length (h : Recorded fs) : fs.view fs.code.instructions.length = fs.scope := by
  have hclosed : (fs.localvarinfos ++ fs.dropped).filterMap (closedAt fs.code.instructions.length) =
      [] := by
    rw [List.filterMap_eq_nil_iff]
    intro lvi hmem
    have hend := h.closed lvi hmem
    have hcovers : lvi.covers fs.code.instructions.length = false := by
      simp only [SQLocalVarInfo.covers, Bool.and_eq_false_iff, decide_eq_false_iff_not]
      omega
    rw [closedAt, hcovers]
    rfl
  rw [view, hclosed, List.nil_append, scope_eq h.pos]
  apply List.filterMap_congr
  intro lvi hmem
  unfold openAt
  split
  · rfl
  · next hlt =>
    have hname : lvi.name = none := by
      by_contra hname
      exact hlt (h.opened lvi hmem hname)
    rw [SQLocalVarInfo.entry, hname]
    rfl

/-- An instruction of its own -/
theorem append (h : Recorded fs) {i : SQInstruction}
    (hlen : (fs.code.addInstruction i).instructions.length = fs.code.instructions.length + 1) :
    Recorded (fs.addInstruction i) := by
  have hscopes : (fs.addInstruction i).scopes = fs.scopes ++ [[fs.scope]] :=
    if_pos (hlen ▸ Nat.lt_succ_self _)
  have hlen' : ((fs.addInstruction i).code.instructions.length : ℤ) =
      fs.code.instructions.length + 1 := by exact_mod_cast hlen
  refine ⟨?_, ?_, ?_, h.pos, h.named, ?_⟩
  · rw [hscopes, List.length_append, h.length]
    exact hlen.symm
  · intro lvi hmem hname
    have hstart := h.opened lvi hmem hname
    omega
  · intro lvi hmem
    have hend := h.closed lvi hmem
    omega
  · intro p merged hp
    rw [hscopes] at hp
    obtain hlt | hge := Nat.lt_or_ge p fs.scopes.length
    · rw [List.getElem?_append_left hlt] at hp
      exact h.scopes p merged hp
    · obtain ⟨rfl, hmerged⟩ : p = fs.scopes.length ∧ [fs.scope] = merged := by
        rw [List.getElem?_append_right hge, List.getElem?_singleton] at hp
        split at hp
        · next hzero =>
          cases hp
          exact ⟨by omega, rfl⟩
        · cases hp
      refine ⟨fs.scope, [], hmerged.symm, ?_⟩
      change (fs.view fs.scopes.length).Perm fs.scope
      rw [h.length, h.view_length]

/-- An instruction that becomes a part of the last one -/
theorem merge (h : Recorded fs) {i : SQInstruction}
    (hlen : (fs.code.addInstruction i).instructions.length = fs.code.instructions.length) :
    Recorded (fs.addInstruction i) := by
  have hscopes : (fs.addInstruction i).scopes =
      fs.scopes.modify (fs.scopes.length - 1) (· ++ [fs.scope]) :=
    if_neg (hlen ▸ Nat.lt_irrefl _)
  have hlen' : (fs.addInstruction i).code.instructions.length = fs.code.instructions.length := hlen
  refine ⟨?_, ?_, ?_, h.pos, h.named, ?_⟩
  · rw [hscopes, List.length_modify, h.length, hlen']
  · rw [hlen']
    exact h.opened
  · rw [hlen']
    exact h.closed
  · intro p merged hp
    rw [hscopes, List.getElem?_modify] at hp
    obtain ⟨before, hbefore, rfl⟩ := Option.map_eq_some_iff.mp hp
    obtain ⟨first, rest, rfl, hperm⟩ := h.scopes p before hbefore
    split
    · exact ⟨first, rest ++ [fs.scope], rfl, hperm⟩
    · exact ⟨first, rest, rfl, hperm⟩

theorem addInstruction (h : Recorded fs) (i : SQInstruction) : Recorded (fs.addInstruction i) := by
  obtain hlen | ⟨-, hlen⟩ := length_addInstruction fs.code i
  · exact h.append hlen
  · exact h.merge hlen

theorem popInstructions (h : Recorded fs) {size : ℕ} (hallows : fs.Allows (.popInstructions size)) :
    Recorded (fs.popInstructions size) := by
  have hlen : (fs.popInstructions size).code.instructions.length =
      fs.code.instructions.length - size := by
    change (fs.code.instructions.take _).length = _
    rw [List.length_take]
    omega
  refine ⟨?_, ?_, ?_, h.pos, h.named, ?_⟩
  · rw [hlen, ← h.length]
    change (fs.scopes.take _).length = _
    rw [List.length_take]
    omega
  · rw [hlen]
    exact hallows.1
  · rw [hlen]
    exact hallows.2
  · intro p merged hp
    rw [SQFuncState.popInstructions, List.getElem?_take] at hp
    split at hp
    · exact h.scopes p merged hp
    · cases hp

/-- The end of what is popped is the last instruction. -/
theorem close_end_op (hne : fs.code.instructions ≠ []) (lvi : SQLocalVarInfo) :
    (fs.close lvi).end_op = (fs.code.instructions.length : ℤ) - 1 := by
  have hpos := List.length_pos_of_ne_nil hne
  have hcurrent : ¬ fs.code.getCurrentPos < 0 := by
    rw [SQCompiler.SQFuncState.getCurrentPos]
    omega
  rw [close, SQLocalVarInfo.unsigned, if_neg hcurrent]
  rfl

/-- Variables that are popped stay where they were. -/
theorem filterMap_close {p : ℕ} (hp : p < fs.code.instructions.length)
    (popped : List SQLocalVarInfo) :
    ((popped.filter fun lvi => lvi.name.isSome).map fs.close).filterMap (closedAt p) =
      popped.filterMap (openAt p) := by
  have hne : fs.code.instructions ≠ [] := List.ne_nil_of_length_pos (Nat.zero_lt_of_lt hp)
  have hone : ∀ lvi, closedAt p (fs.close lvi) = openAt p lvi := by
    intro lvi
    have hend : decide ((fs.close lvi).end_op ≥ p) = true := by
      rw [close_end_op hne]
      exact decide_eq_true (by omega)
    rw [closedAt, openAt, SQLocalVarInfo.covers, hend, Bool.and_true]
    simp only [decide_eq_true_eq]
    rfl
  induction popped with
  | nil => rfl
  | cons lvi popped ih =>
    rw [List.filter_cons]
    split
    · rw [List.map_cons, List.filterMap_cons, List.filterMap_cons, hone, ih]
    · next hname =>
      have hnone : openAt p lvi = none := by
        rw [openAt, SQLocalVarInfo.entry, Option.not_isSome_iff_eq_none.mp hname]
        exact ite_self _
      rw [ih, List.filterMap_cons, hnone]

/-- Variables are popped, and recorded in `_localvarinfos` or dropped. -/
theorem pop (h : Recorded fs) (fs' : SQFuncState) (popped popped' : List SQLocalVarInfo)
    (hcode : fs'.code.instructions.length = fs.code.instructions.length)
    (hscopes : fs'.scopes = fs.scopes) (hvlocals : fs.vlocals = fs'.vlocals ++ popped)
    (hpopped : popped'.Perm popped)
    (hinfos : (fs'.localvarinfos ++ fs'.dropped).Perm (fs.localvarinfos ++ fs.dropped ++
      (popped'.filter fun lvi => lvi.name.isSome).map fs.close))
    (hnamed : ∀ lvi ∈ fs'.localvarinfos, lvi.name ≠ none)
    (hne : fs.code.instructions = [] → ∀ lvi ∈ popped, lvi.name = none) : Recorded fs' := by
  refine ⟨?_, ?_, ?_, ?_, hnamed, ?_⟩
  · rw [hscopes, hcode, h.length]
  · intro lvi hmem hname
    rw [hcode]
    apply h.opened lvi _ hname
    rw [hvlocals]
    exact List.mem_append_left _ hmem
  · intro lvi hmem
    rw [hcode]
    obtain hmem | hmem := List.mem_append.mp (hinfos.mem_iff.mp hmem)
    · exact h.closed lvi hmem
    · obtain ⟨lvi', hmem', rfl⟩ := List.mem_map.mp hmem
      obtain ⟨hmem', hsome⟩ := List.mem_filter.mp hmem'
      have hcode' : fs.code.instructions ≠ [] := by
        intro hnil
        rw [hne hnil lvi' (hpopped.mem_iff.mp hmem')] at hsome
        cases hsome
      rw [close_end_op hcode']
      omega
  · intro i lvi hi hname
    apply h.pos i lvi _ hname
    rw [hvlocals, List.getElem?_append_left (List.getElem?_eq_some_iff.mp hi).1]
    exact hi
  · intro p merged hp
    rw [hscopes] at hp
    obtain ⟨first, rest, hfirst, hperm⟩ := h.scopes p merged hp
    refine ⟨first, rest, hfirst, List.Perm.trans ?_ hperm⟩
    have hclosed : ((fs'.localvarinfos ++ fs'.dropped).filterMap (closedAt p)).Perm
        ((fs.localvarinfos ++ fs.dropped).filterMap (closedAt p) ++
          popped'.filterMap (openAt p)) := by
      rw [← filterMap_close (h.lt_length hp) popped', ← List.filterMap_append]
      exact hinfos.filterMap _
    have hpopped' := (hpopped.filterMap (openAt p)).append_left (fs'.vlocals.filterMap (openAt p))
    have hview : fs.view p = (fs.localvarinfos ++ fs.dropped).filterMap (closedAt p) ++
        (fs'.vlocals.filterMap (openAt p) ++ popped.filterMap (openAt p)) := by
      rw [view, hvlocals, List.filterMap_append (l := fs'.vlocals)]
    rw [hview]
    refine (hclosed.append_right _).trans ?_
    rw [List.append_assoc]
    exact (List.perm_append_comm.trans hpopped').append_left _

theorem setStackSize (h : Recorded fs) {n : ℕ} (hallows : fs.Allows (.setStackSize n)) :
    Recorded (fs.setStackSize n) := by
  apply h.pop (fs.setStackSize n) (fs.vlocals.drop n) (fs.vlocals.drop n).reverse rfl rfl
  · exact (List.take_append_drop n fs.vlocals).symm
  · exact List.reverse_perm _
  · change (fs.localvarinfos ++ _ ++ fs.dropped).Perm _
    rw [List.append_assoc, List.append_assoc]
    exact List.perm_append_comm.append_left _
  · intro lvi hmem
    obtain hmem | hmem := List.mem_append.mp hmem
    · exact h.named lvi hmem
    · obtain ⟨lvi', hmem', rfl⟩ := List.mem_map.mp hmem
      exact Option.isSome_iff_ne_none.mp (List.mem_filter.mp hmem').2
  · exact hallows

/-- Nothing is popped and nothing is added to the code. -/
theorem same (h : Recorded fs) (fs' : SQFuncState)
    (hcode : fs'.code.instructions.length = fs.code.instructions.length)
    (hscopes : fs'.scopes = fs.scopes) (hvlocals : fs.vlocals = fs'.vlocals)
    (hinfos : fs'.localvarinfos = fs.localvarinfos) (hdropped : fs'.dropped = fs.dropped) :
    Recorded fs' := by
  apply h.pop fs' [] [] hcode hscopes
  · rw [hvlocals, List.append_nil]
  · exact .refl _
  · rw [hinfos, hdropped]
    exact .of_eq (List.append_nil _).symm
  · rw [hinfos]
    exact h.named
  · exact nofun

theorem popTarget (h : Recorded fs) (hallows : fs.Allows .popTarget) : Recorded fs.popTarget := by
  cases hpops : fs.popsLocal with
  | false =>
    apply h.same fs.popTarget rfl rfl
    · simp [SQFuncState.popTarget, hpops]
    · rfl
    · simp [SQFuncState.popTarget, hpops]
  | true =>
    have hdropped : fs.popTarget.dropped =
        (fs.vlocals.getLast?.toList.filter fun lvi => lvi.name.isSome).map fs.close ++
          fs.dropped := if_pos hpops
    have hvlocals : fs.popTarget.vlocals = fs.vlocals.dropLast := if_pos hpops
    apply h.pop fs.popTarget fs.vlocals.getLast?.toList fs.vlocals.getLast?.toList rfl rfl
    · rw [hvlocals]
      cases hlast : fs.vlocals.getLast? with
      | none =>
        rw [List.getLast?_eq_none_iff.mp hlast]
        rfl
      | some lvi => exact (List.dropLast_append_getLast? lvi hlast).symm
    · exact .refl _
    · rw [hdropped]
      change (fs.localvarinfos ++ _).Perm _
      rw [List.append_assoc]
      exact List.perm_append_comm.append_left _
    · exact h.named
    · exact fun hnil lvi hmem => hallows hnil hpops lvi (Option.mem_toList.mp hmem)

theorem discardTarget (h : Recorded fs) (hallows : fs.Allows .discardTarget) :
    Recorded fs.discardTarget := by
  apply (h.popTarget hallows).same fs.discardTarget _ rfl rfl rfl rfl
  change fs.code.discardTarget.instructions.length = fs.code.popTarget.instructions.length
  unfold SQCompiler.SQFuncState.discardTarget
  dsimp only
  split
  · next pi hlast =>
    split
    · have hne : fs.code.popTarget.instructions ≠ [] := by
        rintro hnil
        rw [hnil] at hlast
        cases hlast
      have hpos := List.length_pos_of_ne_nil hne
      rw [List.length_append, List.length_dropLast, List.length_singleton]
      omega
    · rfl
  · rfl

theorem modifyInstruction (h : Recorded fs) (pos : ℤ) (f : SQInstruction → SQInstruction) :
    Recorded (fs.modifyInstruction pos f) := by
  apply h.same (fs.modifyInstruction pos f) _ rfl rfl rfl rfl
  change (fs.code.modifyInstruction pos f).instructions.length = _
  unfold SQCompiler.SQFuncState.modifyInstruction
  split
  · exact List.length_modify ..
  · rfl

/-- A new temporary or variable -/
theorem push (h : Recorded fs) (fs' : SQFuncState) (lvi : SQLocalVarInfo)
    (hcode : fs'.code.instructions = fs.code.instructions) (hscopes : fs'.scopes = fs.scopes)
    (hvlocals : fs'.vlocals = fs.vlocals ++ [lvi])
    (hinfos : fs'.localvarinfos = fs.localvarinfos) (hdropped : fs'.dropped = fs.dropped)
    (hlvi : lvi.name ≠ none →
      lvi.start_op = fs.code.instructions.length ∧ lvi.pos = fs.vlocals.length) : Recorded fs' := by
  refine ⟨?_, ?_, ?_, ?_, ?_, ?_⟩
  · rw [hscopes, hcode, h.length]
  · intro lvi' hmem hname
    rw [hvlocals] at hmem
    rw [hcode]
    obtain hmem | hmem := List.mem_append.mp hmem
    · exact h.opened lvi' hmem hname
    · obtain rfl := List.mem_singleton.mp hmem
      exact (hlvi hname).1.le
  · rw [hinfos, hdropped, hcode]
    exact h.closed
  · intro i lvi' hi hname
    rw [hvlocals] at hi
    obtain hlt | hge := Nat.lt_or_ge i fs.vlocals.length
    · rw [List.getElem?_append_left hlt] at hi
      exact h.pos i lvi' hi hname
    · rw [List.getElem?_append_right hge, List.getElem?_singleton] at hi
      split at hi
      · next hzero =>
        cases hi
        rw [(hlvi hname).2]
        omega
      · cases hi
  · rw [hinfos]
    exact h.named
  · intro p merged hp
    rw [hscopes] at hp
    obtain ⟨first, rest, hfirst, hperm⟩ := h.scopes p merged hp
    have hnone : openAt p lvi = none := by
      cases hname : lvi.name with
      | none =>
        rw [openAt, SQLocalVarInfo.entry, hname]
        exact ite_self _
      | some name =>
        have hlt := h.lt_length hp
        have hstart := (hlvi (by simp [hname])).1
        exact if_neg (by omega)
    have hview : fs'.view p = fs.view p := by
      rw [view, view, hinfos, hdropped, hvlocals, List.filterMap_append (l := fs.vlocals),
        List.filterMap_cons, hnone, List.filterMap_nil, List.append_nil]
    exact ⟨first, rest, hfirst, hview ▸ hperm⟩

/-- The capture of a variable does not change where it is one. -/
theorem markLocalAsOuter (h : Recorded fs) (pos : ℕ) : Recorded (fs.markLocalAsOuter pos) := by
  have hget : ∀ (i : ℕ) lvi, (fs.markLocalAsOuter pos).vlocals[i]? = some lvi →
      ∃ lvi', fs.vlocals[i]? = some lvi' ∧ lvi.name = lvi'.name ∧ lvi.start_op = lvi'.start_op ∧
        lvi.pos = lvi'.pos := by
    intro i lvi hi
    rw [SQFuncState.markLocalAsOuter, List.getElem?_modify] at hi
    obtain ⟨lvi', hlvi', rfl⟩ := Option.map_eq_some_iff.mp hi
    refine ⟨lvi', hlvi', ?_⟩
    split
    · exact ⟨rfl, rfl, rfl⟩
    · exact ⟨rfl, rfl, rfl⟩
  refine ⟨h.length, ?_, h.closed, ?_, h.named, ?_⟩
  · intro lvi hmem hname
    obtain ⟨i, hi⟩ := List.mem_iff_getElem?.mp hmem
    obtain ⟨lvi', hlvi', hname', hstart, -⟩ := hget i lvi hi
    rw [hstart]
    exact h.opened lvi' (List.mem_of_getElem? hlvi') (hname' ▸ hname)
  · intro i lvi hi hname
    obtain ⟨lvi', hlvi', hname', -, hpos⟩ := hget i lvi hi
    rw [hpos]
    exact h.pos i lvi' hlvi' (hname' ▸ hname)
  · intro p merged hp
    obtain ⟨first, rest, hfirst, hperm⟩ := h.scopes p merged hp
    have hview : (fs.markLocalAsOuter pos).view p = fs.view p := by
      have hmodify : ∀ (vlocals : List SQLocalVarInfo) (i : ℕ),
          (vlocals.modify i fun lvi => { lvi with end_op := UINT_MINUS_ONE }).filterMap
            (openAt p) = vlocals.filterMap (openAt p) := by
        intro vlocals
        induction vlocals with
        | nil => exact fun i => by rw [List.modify_nil]
        | cons lvi vlocals ih =>
          intro i
          cases i with
          | zero => rfl
          | succ i =>
            rw [List.modify_succ_cons, List.filterMap_cons, List.filterMap_cons, ih]
      exact congrArg (_ ++ ·) (hmodify fs.vlocals pos)
    exact ⟨first, rest, hfirst, hview ▸ hperm⟩

/-- What one request keeps -/
theorem step (h : Recorded fs) {r : Request} (hallows : fs.Allows r) : Recorded (fs.step r) := by
  cases r with
  | add i => exact h.addInstruction i
  | popInstructions size => exact h.popInstructions hallows
  | modifyInstruction pos f => exact h.modifyInstruction pos f
  | snoozeOpt => exact h.same fs.snoozeOpt rfl rfl rfl rfl rfl
  | setReturnExp retexp => exact h.same (fs.setReturnExp retexp) rfl rfl rfl rfl rfl
  | pushTarget n =>
    cases n with
    | some n => exact h.same (fs.pushTarget (some n)) rfl rfl rfl rfl rfl
    | none =>
      apply h.push (fs.pushTarget none) ⟨none, 0, 0, 0⟩ rfl rfl rfl rfl rfl
      exact fun hname => absurd rfl hname
  | popTarget => exact h.popTarget hallows
  | discardTarget => exact h.discardTarget hallows
  | pushLocalVariable name =>
    apply h.push (fs.pushLocalVariable name) _ rfl rfl rfl rfl rfl
    intro _
    exact ⟨sub_add_cancel _ _, rfl⟩
  | markLocalAsOuter pos => exact h.markLocalAsOuter pos
  | pushOuter name => exact h.same (fs.pushOuter name) rfl rfl rfl rfl rfl
  | setStackSize n => exact h.setStackSize hallows

end Recorded

/-- The states of a function under compilation -/
def Compiling (fs : SQFuncState) : Prop :=
  ∃ fusion lineinfo parent,
    GuardedRuns.Reach (fun fs r => some (fs.step r)) Allows (create fusion lineinfo parent) fs

theorem Compiling.start (fusion lineinfo parent : Bool) :
    Compiling (create fusion lineinfo parent) := ⟨fusion, lineinfo, parent, .refl⟩

theorem Compiling.run (h : Compiling fs) {rs : List Request} (hallows : fs.AllowsAll rs) :
    Compiling (rs.foldl step fs) := by
  induction rs generalizing fs with
  | nil => exact h
  | cons r rs ih =>
    obtain ⟨fusion, lineinfo, parent, hreach⟩ := h
    exact ih ⟨fusion, lineinfo, parent, hreach.tail r hallows.1 rfl⟩ hallows.2

/-- What a whole run keeps -/
theorem Compiling.recorded (h : Compiling fs) : Recorded fs := by
  obtain ⟨fusion, lineinfo, parent, hreach⟩ := h
  apply hreach.invariant _ (recorded_create fusion lineinfo parent)
  intro fs r fs' hrecorded hallows hstep
  cases hstep
  exact hrecorded.step hallows

end SQFuncState

end Squirt.LocalNames
