import Squirt.LocalVarInfos
import Squirt.VmFrames

/-!
# The variables a debugger sees

`sq_getlocal` at any position of a function that the compiler has built, by what was recorded about
its local variables.
-/

namespace Squirt.LocalNames

/-- What the debugger uses of a function; `outervalues` are the names of its free variables. -/
structure SQFunctionProto where
  outervalues : List String
  localvarinfos : List SQLocalVarInfo

def SQFuncState.buildProto (fs : SQFuncState) : SQFunctionProto := ⟨fs.outervalues, fs.localvarinfos⟩

/-- `_valptr` points into the stack or at the value of the `SQOuter`. -/
inductive SQOuter
  | inStack (idx : ℤ)
  | closed (value : SQObject)

/-- `*_valptr` -/
def SQOuter.value (vm : SQVM) : SQOuter → Option SQObject
  | inStack idx => vm.slot idx
  | closed value => some value

structure SQClosure where
  function : SQFunctionProto
  outervalues : List SQOuter
  outers : outervalues.length = function.outervalues.length

def getLocalLoop (nop : ℤ) : List SQLocalVarInfo → ℕ → Option SQLocalVarInfo
  | [], _ => none
  | lvi :: infos, nseq =>
    if lvi.covers nop then
      match nseq with
      | 0 => some lvi
      | nseq + 1 => getLocalLoop nop infos nseq
    else getLocalLoop nop infos nseq

/-- `Push` of what is read, and a name as the result -/
def pushNamed (vm : SQVM) (name : Option String) (o : Option SQObject) :
    Option (Option String × SQVM) :=
  o.bind fun o => (vm.push o).map fun vm => (name, vm)

/-- `GetLocal`; no name is `NULL`. -/
def SQFunctionProto.getLocal (f : SQFunctionProto) (vm : SQVM) (stackbase : ℤ) (nseq : ℕ)
    (nop : ℤ) : Option (Option String × SQVM) :=
  if f.localvarinfos.length ≥ nseq then
    match getLocalLoop nop f.localvarinfos nseq with
    | some lvi => pushNamed vm lvi.name (vm.slot (stackbase + lvi.pos))
    | none => some (none, vm)
  else some (none, vm)

/-- `_stackbase` of the frame so many levels below the current one -/
def frameBase (vm : SQVM) (level : ℕ) : ℤ :=
  vm.stackbase - ((vm.callsstack.take level).map CallInfo.prevstkbase).sum

/-- `sq_getlocal`, with the `_ip - _instructions` of each frame -/
def sq_getlocal (closures : ℕ → SQClosure) (ips : ℕ → ℤ) (vm : SQVM) (level idx : ℕ) :
    Option (Option String × SQVM) :=
  match vm.callsstack[level]? with
  | none => some (none, vm)
  | some ci =>
    match ci.closure with
    | .closure r =>
      let c := closures r
      if c.function.outervalues.length > idx then
        pushNamed vm c.function.outervalues[idx]? ((c.outervalues[idx]?).bind (·.value vm))
      else
        c.function.getLocal vm (frameBase vm level) (idx - c.function.outervalues.length)
          (ips level - 1)
    | _ => some (none, vm)

/-- `GetLocal` goes through the variables whose interval has the position. -/
theorem getLocalLoop_eq (nop : ℤ) (infos : List SQLocalVarInfo) (nseq : ℕ) :
    getLocalLoop nop infos nseq = (infos.filter (·.covers nop))[nseq]? := by
  induction infos generalizing nseq with
  | nil => rfl
  | cons lvi infos ih =>
    cases hcovers : lvi.covers nop with
    | false => simp [getLocalLoop, hcovers, ih]
    | true =>
      cases nseq with
      | zero => simp [getLocalLoop, hcovers]
      | succ nseq => simp [getLocalLoop, hcovers, ih]

/-- The check of the length is no more than that. -/
theorem getLocal_eq (f : SQFunctionProto) (vm : SQVM) (stackbase : ℤ) (nseq : ℕ) (nop : ℤ) :
    f.getLocal vm stackbase nseq nop =
      match (f.localvarinfos.filter (·.covers nop))[nseq]? with
      | some lvi => pushNamed vm lvi.name (vm.slot (stackbase + lvi.pos))
      | none => some (none, vm) := by
  rw [SQFunctionProto.getLocal, getLocalLoop_eq]
  split
  · rfl
  · next hlt =>
    have hnone : (f.localvarinfos.filter (·.covers nop))[nseq]? = none := by
      apply List.getElem?_eq_none
      have hle := List.length_filter_le (·.covers nop) f.localvarinfos
      omega
    rw [hnone]

/-- What the debugger is to show for an activation of a closure: the free variables, then the
variables with their registers -/
def shown (vm : SQVM) (c : SQClosure) (stackbase : ℤ) (locals : List (String × ℕ)) :
    List (String × Option SQObject) :=
  (c.function.outervalues.zip (c.outervalues.map (·.value vm))) ++
    locals.map fun (name, pos) => (name, vm.slot (stackbase + pos))

/-- `sq_getlocal` goes through a list: a name and a pushed value for each index, then `NULL`. -/
def Enumerates (closures : ℕ → SQClosure) (ips : ℕ → ℤ) (vm : SQVM) (level : ℕ)
    (list : List (String × Option SQObject)) : Prop :=
  ∀ idx, sq_getlocal closures ips vm level idx =
    match list[idx]? with
    | some (name, value) => pushNamed vm (some name) value
    | none => some (none, vm)

/-- Variables that have names, one by one -/
theorem getElem?_entries {infos : List SQLocalVarInfo} (hnamed : ∀ lvi ∈ infos, lvi.name ≠ none)
    (i : ℕ) : (infos.filterMap SQLocalVarInfo.entry)[i]? =
      (infos[i]?).bind SQLocalVarInfo.entry := by
  induction infos generalizing i with
  | nil => rfl
  | cons lvi infos ih =>
    obtain ⟨hname, hrest⟩ := List.forall_mem_cons.mp hnamed
    obtain ⟨name, hsome⟩ := Option.ne_none_iff_exists'.mp hname
    have hentry : lvi.entry = some (name, lvi.pos) := by rw [SQLocalVarInfo.entry, hsome]; rfl
    rw [List.filterMap_cons, hentry]
    cases i with
    | zero => exact hentry.symm
    | succ i => exact ih hrest i

private theorem enumerates_locals {closures : ℕ → SQClosure} {ips : ℕ → ℤ} {vm : SQVM} {level r : ℕ}
    {ci : CallInfo} (hci : vm.callsstack[level]? = some ci) (hclosure : ci.closure = .closure r)
    (hnamed : ∀ lvi ∈ (closures r).function.localvarinfos, lvi.name ≠ none) {p : ℕ}
    (hip : ips level = p + 1) :
    Enumerates closures ips vm level (shown vm (closures r) (frameBase vm level)
      ((closures r).function.localvarinfos.filterMap (SQFuncState.closedAt p))) := by
  intro idx
  have hlen : ((closures r).function.outervalues.zip
      ((closures r).outervalues.map (·.value vm))).length =
      (closures r).function.outervalues.length := by
    rw [List.length_zip, List.length_map, (closures r).outers, Nat.min_self]
  simp only [sq_getlocal, hci, hclosure, shown]
  split
  · next hlt =>
    obtain ⟨name, hname⟩ : ∃ name, (closures r).function.outervalues[idx]? = some name :=
      ⟨_, List.getElem?_eq_getElem hlt⟩
    obtain ⟨otr, hotr⟩ : ∃ otr, (closures r).outervalues[idx]? = some otr :=
      ⟨_, List.getElem?_eq_getElem ((closures r).outers ▸ hlt)⟩
    have hzip : ((closures r).function.outervalues.zip
        ((closures r).outervalues.map (·.value vm)))[idx]? = some (name, otr.value vm) := by
      rw [List.getElem?_zip_eq_some, List.getElem?_map, hotr]
      exact ⟨hname, rfl⟩
    rw [List.getElem?_append_left (hlen ▸ hlt), hzip, hname, hotr]
    rfl
  · next hge =>
    have hfilter : (closures r).function.localvarinfos.filterMap (SQFuncState.closedAt p) =
        ((closures r).function.localvarinfos.filter (·.covers p)).filterMap
          SQLocalVarInfo.entry := by
      rw [List.filterMap_filter]
      rfl
    have hnamed' : ∀ lvi ∈ (closures r).function.localvarinfos.filter (·.covers p),
        lvi.name ≠ none := fun lvi hmem => hnamed lvi (List.mem_filter.mp hmem).1
    have hpos : ips level - 1 = p := by omega
    rw [List.getElem?_append_right (by omega), hlen, List.getElem?_map, getLocal_eq, hpos, hfilter,
      getElem?_entries hnamed']
    cases hlvi : ((closures r).function.localvarinfos.filter (·.covers p))[
        idx - (closures r).function.outervalues.length]? with
    | none => rfl
    | some lvi =>
      obtain ⟨name, hname⟩ :=
        Option.ne_none_iff_exists'.mp (hnamed' lvi (List.mem_of_getElem? hlvi))
      simp only [Option.bind_some, Option.map_some, SQLocalVarInfo.entry, hname]

/-- The closures of the function that `SetStackSize(0)` and `BuildProto` make of `fs` -/
def ClosureOf (fs : SQFuncState) (c : SQClosure) : Prop :=
  c.function = (fs.setStackSize 0).buildProto

/-- What is asked for `function() { foreach(v in this); }` -/
def foreachRequests : List Request :=
  [.pushLocalVariable "this", .pushTarget (some 0),
    .pushLocalVariable "@INDEX@", .add (.ofArgs none .LOADNULLS 1 1 0 0),
    .pushLocalVariable "v", .add (.ofArgs none .LOADNULLS 2 1 0 0),
    .pushLocalVariable "@ITERATOR@", .add (.ofArgs none .LOADNULLS 3 1 0 0),
    .add (.ofArgs none .FOREACH 0 0 1 0), .add (.ofArgs none .POSTFOREACH 0 0 1 0),
    .add (.ofArgs none .JMP 0 (-3) 0 0),
    .modifyInstruction 1 fun i => { i with arg1 := 2 },
    .modifyInstruction 2 fun i => { i with arg1 := 2 },
    .popTarget, .setStackSize 1, .add (.ofArgs none .RETURN (-1) 0 0 0)]

def foreachThis : SQFuncState :=
  foreachRequests.foldl SQFuncState.step (.create true false true)

private theorem foreachThis_compiling : foreachThis.Compiling :=
  (SQFuncState.Compiling.start true false true).run (by decide)

/-- The closure of `foreachThis`, which has no free variables -/
def foreachClosure : SQClosure := ⟨(foreachThis.setStackSize 0).buildProto, [], rfl⟩

/-- A VM in the first frame, which runs closure 0 -/
def foreachVm : SQVM :=
  { SQVM.init 40 fun _ => 0 with
    top := 4
    callsstack := [⟨.closure 0, none, 0, 0, 0, 0, 1, true⟩] }

/-- What the lexer reads as a name -/
def isIdentifier (name : String) : Bool :=
  match name.toList with
  | [] => false
  | c :: cs => (c.isAlpha || c == '_') && cs.all fun c => c.isAlphanum || c == '_'

end Squirt.LocalNames
