import Squirt.SlotOperations
import Squirt.VmFrameEffects

/-!
# What the operations leave on the stack

Every operation pops the arguments that it pushes for a metamethod. `Set` leaves the three
arguments of a `_set` that reports a clean failure.
-/

namespace Squirt

open Traced (Adds)

/-- A `_set` that has thrown null -/
def MetaCall.cleanSet (e : MetaCall) : Prop := e.mm = .set ∧ e.failure = some .null

instance : DecidablePred MetaCall.cleanSet := fun e =>
  inferInstanceAs (Decidable (e.mm = .set ∧ e.failure = some .null))

/-- What is left on the stack after a call -/
def MetaCall.leaves (e : MetaCall) : ℤ := if e.cleanSet then 3 else 0

/-- `Call` restores `_top`. -/
def Runtime.KeepsTop (rt : Runtime) : Prop :=
  ∀ s closure nparams stackbase s' res, rt.call s closure nparams stackbase = some (s', res) →
    s'.vm.top = s.vm.top

namespace VmOp

/-- The operation adds `n` slots to the stack, besides what its calls leave. -/
abbrev Pushes {α : Type} (m : VmOp α) (n : ℤ) : Prop :=
  Adds (fun s : Store => s.vm.top) MetaCall.leaves m n

variable {rt : Runtime} {α β : Type}

theorem Pushes.cast {m : VmOp α} {n l : ℤ} (h : Pushes m n) (hn : n = l) : Pushes m l := hn ▸ h

theorem pushes_vmStep {f : SQVM → Option SQVM} {n : ℤ}
    (hf : ∀ vm vm', f vm = some vm' → vm'.top = vm.top + n) : Pushes (vmStep f) n := by
  apply Adds.step
  intro s a s' h
  obtain ⟨vm, hvm, heq⟩ := Option.map_eq_some_iff.mp h
  cases heq
  exact hf s.vm vm hvm

theorem pushes_push (o : SQObject) : Pushes (push o) 1 := by
  apply pushes_vmStep
  intro vm vm' h
  obtain ⟨vm₁, -, rfl⟩ := SQVM.push_spec h
  rfl

theorem pushes_pop (n : ℕ) : Pushes (pop n) (-n) := by
  apply pushes_vmStep
  intro vm vm' h
  obtain ⟨vm₁, -, rfl⟩ := SQVM.pop_spec h
  rfl

theorem pushes_raiseError (message : String) : Pushes (raiseError message) 0 :=
  Adds.modify fun _ => (add_zero _).symm

theorem pushes_fail (message : String) : Pushes (fail message : VmOp (Option α)) 0 :=
  (pushes_raiseError message).bind_zero fun _ => .pure _

theorem pushes_raiseIdxError (key : SQObject) : Pushes (raiseIdxError rt key) 0 :=
  pushes_raiseError _

private theorem pushes_raiseCompareError (o1 o2 : SQObject) : Pushes (raiseCompareError rt o1 o2) 0
    :=
  pushes_raiseError _

theorem pushes_enterMetaMethod : Pushes enterMetaMethod 0 := Adds.modify fun _ => (add_zero _).symm

theorem pushes_leaveMetaMethod : Pushes leaveMetaMethod 0 := Adds.modify fun _ => (add_zero _).symm

/-- A step that leaves the VM alone -/
theorem pushes_step {f : Store → Option (α × Store)}
    (hf : ∀ s a s', f s = some (a, s') → s'.vm.top = s.vm.top) : Pushes (.step f) 0 := by
  apply Adds.step
  intro s a s' h
  rw [add_zero]
  exact hf s a s' h

theorem pushes_modify {f : Store → Store} (hf : ∀ s, (f s).vm.top = s.vm.top) :
    Pushes (.modify f) 0 := by
  apply Adds.modify
  intro s
  rw [add_zero]
  exact hf s

section Calls

variable (hcall : rt.KeepsTop)

include hcall

theorem pushes_call {mm : SQMetaMethod} (hmm : mm ≠ .set) (closure : SQObject) (nparams : ℕ) :
    Pushes (call rt mm closure nparams) 0 := by
  intro s a s' events h
  have hleaves : ∀ failure, MetaCall.leaves ⟨mm, closure, failure⟩ = 0 :=
    fun failure => if_neg fun hclean => hmm hclean.1
  unfold call at h
  split at h
  · cases h
  · rename_i s₁ res hc
    cases h
    simp [hleaves, hcall _ _ _ _ _ _ hc]
  · rename_i s₁ hc
    cases h
    simp [hleaves, hcall _ _ _ _ _ _ hc]

/-- `CallMetaMethod` pops the arguments. -/
theorem pushes_callMetaMethod {mm : SQMetaMethod} (hmm : mm ≠ .set) (closure : SQObject)
    (nparams : ℕ) : Pushes (callMetaMethod rt closure mm nparams) (-nparams) := by
  apply pushes_enterMetaMethod.zero_bind
  intro _
  apply (pushes_call hcall hmm closure nparams).zero_bind
  intro res
  apply pushes_leaveMetaMethod.zero_bind
  intro _
  apply (pushes_pop nparams).bind_zero
  intro _
  exact .pure res

/-- The call of a metamethod with one argument -/
theorem pushes_call_one {mm : SQMetaMethod} (hmm : mm ≠ .set) {closure o1 : SQObject}
    {k : Option SQObject → VmOp β} (hk : ∀ res, Pushes (k res) 0) :
    Pushes (do push o1; let res ← callMetaMethod rt closure mm 1; k res) 0 := by
  have hmeta := (pushes_callMetaMethod hcall hmm closure 1).bind_zero hk
  exact Pushes.cast ((pushes_push o1).bind fun _ => hmeta) (by norm_num)

/-- The call of a metamethod with two arguments -/
theorem pushes_call_two {mm : SQMetaMethod} (hmm : mm ≠ .set) {closure o1 o2 : SQObject}
    {k : Option SQObject → VmOp β} (hk : ∀ res, Pushes (k res) 0) :
    Pushes (do push o1; push o2; let res ← callMetaMethod rt closure mm 2; k res) 0 := by
  have hmeta := (pushes_callMetaMethod hcall hmm closure 2).bind_zero hk
  exact Pushes.cast ((pushes_push o1).bind fun _ => (pushes_push o2).bind fun _ => hmeta)
    (by norm_num)

/-- The call of a metamethod with three arguments -/
theorem pushes_call_three {mm : SQMetaMethod} (hmm : mm ≠ .set) {closure o1 o2 o3 : SQObject}
    {k : Option SQObject → VmOp β} (hk : ∀ res, Pushes (k res) 0) :
    Pushes (do push o1; push o2; push o3; let res ← callMetaMethod rt closure mm 3; k res) 0 := by
  have hmeta := (pushes_callMetaMethod hcall hmm closure 3).bind_zero hk
  exact Pushes.cast ((pushes_push o1).bind fun _ => (pushes_push o2).bind fun _ =>
    (pushes_push o3).bind fun _ => hmeta) (by norm_num)

end Calls

theorem pushes_getMetaMethod (o : SQObject) (mm : SQMetaMethod) : Pushes (getMetaMethod o mm) 0 :=
  .read _

theorem pushes_delegatedMetaMethod (o : SQObject) (mm : SQMetaMethod) :
    Pushes (delegatedMetaMethod o mm) 0 := by
  apply Adds.zero_bind (.read _)
  intro found
  cases found with
  | true => exact pushes_getMetaMethod o mm
  | false => exact .pure none

section Operations

variable (hcall : rt.KeepsTop)

include hcall

theorem pushes_toStr (o : SQObject) : Pushes (toStr rt o) 0 := by
  unfold toStr
  split
  · exact .pure _
  · exact .pure _
  · exact .pure _
  · exact .pure _
  · apply (pushes_delegatedMetaMethod _ _).zero_bind
    intro closure
    cases closure with
    | some closure =>
      apply pushes_call_one hcall (by decide)
      intro res
      split <;> exact .pure _
    | none => exact .pure _

theorem pushes_arithMetaMethod (op : ArithOp) (o1 o2 : SQObject) :
    Pushes (arithMetaMethod rt op o1 o2) 0 := by
  apply (pushes_delegatedMetaMethod _ _).zero_bind
  intro closure
  cases closure with
  | some closure =>
    have hmm : op.mm ≠ .set := by cases op <;> decide
    have hmeta := pushes_callMetaMethod hcall hmm closure 2
    exact Pushes.cast ((pushes_push o1).bind fun _ => (pushes_push o2).bind fun _ => hmeta)
      (by norm_num)
  | none => exact pushes_fail _

theorem pushes_negOp (trg o : SQObject) : Pushes (negOp rt trg o) 0 := by
  unfold negOp
  split
  · exact .pure _
  · exact .pure _
  · apply (pushes_delegatedMetaMethod _ _).zero_bind
    intro closure
    cases closure with
    | some closure =>
      apply pushes_call_one hcall (by decide)
      intro res
      cases res with
      | some res =>
        refine Adds.zero_bind (pushes_modify ?_) fun _ => .pure _
        intro s
        rfl
      | none => exact .pure none
    | none => exact pushes_fail _

theorem pushes_objCmp (o1 o2 : SQObject) : Pushes (objCmp rt o1 o2) 0 := by
  unfold objCmp
  split
  · split
    · exact .pure _
    · split
      · exact .pure _
      · exact .pure _
      · exact .pure _
      · apply (pushes_delegatedMetaMethod _ _).zero_bind
        intro closure
        cases closure with
        | some closure =>
          apply pushes_call_two hcall (by decide)
          intro res
          split
          · exact .pure _
          · exact pushes_fail _
          · exact .pure _
        | none => exact .pure _
  · split
    · exact .pure _
    · split
      · exact .pure _
      · split
        · exact .pure _
        · exact (pushes_raiseCompareError o1 o2).zero_bind fun _ => .pure none

theorem pushes_isEqual (withVm : Bool) (o1 o2 : SQObject) :
    Pushes (isEqual rt withVm o1 o2) 0 := by
  unfold isEqual
  split
  · split
    · exact .pure _
    · split
      · apply (pushes_delegatedMetaMethod _ _).zero_bind
        intro closure
        cases closure with
        | some closure =>
          apply pushes_call_two hcall (by decide)
          intro res
          split
          · exact .pure _
          · exact pushes_fail _
          · exact .pure _
        | none => exact .pure _
      · exact .pure _
  · split <;> exact .pure _

theorem pushes_typeOf (obj1 : SQObject) : Pushes (typeOf rt obj1) 0 := by
  apply (pushes_delegatedMetaMethod _ _).zero_bind
  intro closure
  cases closure with
  | some closure =>
    have hmeta := pushes_callMetaMethod hcall (by decide : SQMetaMethod.typeof ≠ .set) closure 1
    exact Pushes.cast ((pushes_push obj1).bind fun _ => hmeta) (by norm_num)
  | none => exact .pure _

end Operations

/-! ## Get -/

private theorem pushes_getSlot (self key : SQObject) : Pushes (getSlot rt self key) 0 := by
  have herror : Pushes (do raiseIdxError rt key; pure (some none) : VmOp (Option (Option SQObject)))
      0 :=
    (pushes_raiseIdxError key).zero_bind fun _ => .pure _
  unfold getSlot
  split
  · split
    · apply Adds.zero_bind (.read _)
      intro dest
      cases dest with
      | some dest => exact .pure _
      | none => exact herror
    · exact .pure _
  · split
    · dsimp only
      split
      · apply pushes_step
        intro s a s' h
        cases h
      · split
        · apply pushes_step
          intro s a s' h
          obtain ⟨c, -, heq⟩ := Option.map_eq_some_iff.mp h
          cases heq
          rfl
        · exact herror
    · exact .pure _
  · exact .read _

private theorem pushes_getRoot (key : SQObject) (selfidx : ℤ) : Pushes (getRoot rt key selfidx) 0
    := by
  apply Adds.zero_bind (.read _)
  intro dest
  cases dest with
  | some dest => exact .pure _
  | none => exact (pushes_raiseIdxError key).zero_bind fun _ => .pure none

/-- The end of `MetaGet`, which leaves the metamethod -/
theorem pushes_leaveMetaGet (res : Option SQObject) : Pushes (match res with
    | some dest => do
      pop 2
      leaveMetaMethod
      pure (.ok dest)
    | none => do
      pop 2
      leaveMetaMethod
      if (← .read fun s => s.vm.lasterror) ≠ .null then pure .error else pure .noMatch :
    VmOp FallBack) (-2) := by
  cases res with
  | some dest =>
    apply (pushes_pop 2).bind_zero
    intro _
    exact pushes_leaveMetaMethod.zero_bind fun _ => .pure _
  | none =>
    apply (pushes_pop 2).bind_zero
    intro _
    apply pushes_leaveMetaMethod.zero_bind
    intro _
    apply Adds.zero_bind (.read _)
    intro error
    split <;> exact .pure _

section Get

variable (hcall : rt.KeepsTop)

include hcall

theorem pushes_metaGet (self key : SQObject) : Pushes (metaGet rt self key) 0 := by
  apply (pushes_getMetaMethod self .get).zero_bind
  intro closure
  cases closure with
  | none => exact .pure _
  | some closure =>
    have hmeta := (pushes_call hcall (by decide : SQMetaMethod.get ≠ .set) closure 2).zero_bind
      pushes_leaveMetaGet
    exact Pushes.cast ((pushes_push self).bind fun _ => (pushes_push key).bind fun _ =>
      pushes_enterMetaMethod.zero_bind fun _ => hmeta) (by norm_num)

private theorem pushes_getFromDelegate {get : SQObject → VmOp (Option SQObject)}
    (hget : ∀ d, Pushes (get d) 0) (self key : SQObject) : Pushes (do
      match ← .read fun s => s.delegate self with
      | some d =>
        match ← get (.table d) with
        | some dest => pure (.ok dest)
        | none => metaGet rt self key
      | none => pure .noMatch : VmOp FallBack) 0 := by
  apply Adds.zero_bind (.read _)
  intro d
  cases d with
  | none => exact .pure _
  | some d =>
    apply (hget (.table d)).zero_bind
    intro dest
    cases dest with
    | some dest => exact .pure _
    | none => exact pushes_metaGet hcall self key

private theorem pushes_fallBackGet {get : SQObject → VmOp (Option SQObject)}
    (hget : ∀ d, Pushes (get d) 0) (self key : SQObject) :
    Pushes (fallBackGet rt get self key) 0 := by
  unfold fallBackGet
  split
  · exact pushes_getFromDelegate hcall hget _ key
  · exact pushes_getFromDelegate hcall hget _ key
  · exact pushes_metaGet hcall _ key
  · exact .pure _

theorem pushes_get (fuel : ℕ) (self key : SQObject) (raw : Bool) (selfidx : ℤ) :
    Pushes (get rt fuel self key raw selfidx) 0 := by
  induction fuel generalizing self raw selfidx with
  | zero => exact .outOfFuel
  | succ fuel ih =>
    apply (pushes_getSlot self key).zero_bind
    intro res
    cases res with
    | some res => exact .pure res
    | none =>
      cases raw with
      | true => exact pushes_getRoot key selfidx
      | false =>
        apply (pushes_fallBackGet hcall (fun d => ih d false DONT_FALL_BACK) self key).zero_bind
        intro res
        cases res with
        | ok dest => exact .pure _
        | error => exact .pure _
        | noMatch =>
          apply Adds.zero_bind (.read _)
          intro dest
          cases dest with
          | some dest => exact .pure _
          | none => exact pushes_getRoot key selfidx

end Get

/-! ## Set -/

private theorem pushes_arraySet (r : ℕ) (nidx : ℤ) (val : SQObject) :
    Pushes (.step fun s => match arraySet s r nidx val with
      | some s => some (true, s)
      | none => some (false, s)) 0 := by
  apply pushes_step
  intro s a s' h
  split at h
  · rename_i s₁ hset
    obtain ⟨values, -, hset⟩ := Option.bind_eq_some_iff.mp hset
    cases h
    split at hset
    · cases hset
      rfl
    · cases hset
  · cases h
    rfl

theorem tableSet_vm {s s' : Store} {t : ℕ} {key val : SQObject}
    (h : s.tableSet rt t key val = some s') : s'.vm = s.vm := by
  obtain ⟨table, -, h⟩ := Option.bind_eq_some_iff.mp h
  split_ifs at h
  · cases h
    rfl
  · cases h
    rfl

private theorem pushes_setSlot (self key val : SQObject) : Pushes (setSlot rt self key val) 0 := by
  have herror : ∀ message, Pushes (do raiseError message; pure (some false) : VmOp (Option Bool)) 0 :=
    fun message => (pushes_raiseError message).zero_bind fun _ => .pure _
  unfold setSlot
  split
  · apply pushes_step
    intro s a s' h
    split at h
    · rename_i s₁ hset
      cases h
      exact congrArg SQVM.top (tableSet_vm hset)
    · cases h
      rfl
  · apply pushes_step
    intro s a s' h
    split at h <;> cases h <;> rfl
  · split
    · exact herror _
    · rename_i r _
      apply (pushes_arraySet r (tointeger rt key) val).zero_bind
      intro found
      cases found with
      | true => exact .pure _
      | false => exact (pushes_raiseIdxError key).zero_bind fun _ => .pure _
  · exact herror _

private theorem pushes_rootSet (key val : SQObject) (selfidx : ℤ) :
    Pushes (.step fun s => if selfidx = 0 then
        match s.tableSet rt s.roottable key val with
        | some s => some (true, s)
        | none => some (false, s)
      else some (false, s)) 0 := by
  apply pushes_step
  intro s a s' h
  split at h
  · split at h
    · rename_i s₁ hset
      cases h
      exact congrArg SQVM.top (tableSet_vm hset)
    · cases h
      rfl
  · cases h
    rfl

private theorem pushes_setRoot (key val : SQObject) (selfidx : ℤ) :
    Pushes (setRoot rt key val selfidx) 0 := by
  apply (pushes_rootSet key val selfidx).zero_bind
  intro found
  cases found with
  | true => exact .pure _
  | false => exact (pushes_raiseIdxError key).zero_bind fun _ => .pure _

section Set

variable (hcall : rt.KeepsTop)

include hcall

/-- The arguments of `_set` are popped, unless it reports a clean failure. -/
theorem pushes_callMetaSet (closure : SQObject) : Pushes (do
    match ← call rt .set closure 3 with
    | some _ =>
      pop 3
      leaveMetaMethod
      pure (.ok .null)
    | none =>
      if (← .read fun s => s.vm.lasterror) ≠ .null then do
        pop 3
        leaveMetaMethod
        pure .error
      else do
        leaveMetaMethod
        pure .noMatch : VmOp FallBack) (-3) := by
  have hok : Pushes (do pop 3; leaveMetaMethod; pure (.ok .null) : VmOp FallBack) (-3) :=
    (pushes_pop 3).bind_zero fun _ => pushes_leaveMetaMethod.zero_bind fun _ => .pure _
  have herror : Pushes (do pop 3; leaveMetaMethod; pure .error : VmOp FallBack) (-3) :=
    (pushes_pop 3).bind_zero fun _ => pushes_leaveMetaMethod.zero_bind fun _ => .pure _
  have hclean : Pushes (do leaveMetaMethod; pure .noMatch : VmOp FallBack) 0 :=
    pushes_leaveMetaMethod.zero_bind fun _ => .pure _
  intro s b s' events h
  obtain ⟨res, s₁, events₁, events₂, hc, htail, rfl⟩ := Traced.bind_done.mp h
  unfold call at hc
  split at hc
  · cases hc
  · rename_i s₂ dest hrun
    cases hc
    have htop := hok s₁ b s' events₂ htail
    have hleaves : MetaCall.leaves ⟨.set, closure, none⟩ = 0 := if_neg fun hc => by cases hc.2
    simp only [List.map_append, List.map_cons, List.map_nil, List.sum_append, List.sum_cons,
      List.sum_nil, hleaves] at htop ⊢
    rw [hcall _ _ _ _ _ _ hrun] at htop
    omega
  · rename_i s₂ hrun
    cases hc
    have hkeep := hcall _ _ _ _ _ _ hrun
    obtain ⟨error, s₃, events₃, events₄, hread, hbranch, rfl⟩ := Traced.bind_done.mp htail
    cases hread
    change (if s₁.vm.lasterror ≠ .null then _ else _ : VmOp FallBack) s₁ = _ at hbranch
    simp only [List.map_append, List.map_cons, List.map_nil, List.sum_append, List.sum_cons,
      List.sum_nil]
    by_cases hnull : s₁.vm.lasterror = .null
    · rw [if_neg (not_not.mpr hnull)] at hbranch
      have htop := hclean s₁ b s' events₄ hbranch
      have hleaves : MetaCall.leaves ⟨.set, closure, some s₁.vm.lasterror⟩ = 3 :=
        if_pos ⟨rfl, congrArg some hnull⟩
      simp only [hleaves] at htop ⊢
      omega
    · rw [if_pos hnull] at hbranch
      have htop := herror s₁ b s' events₄ hbranch
      have hleaves : MetaCall.leaves ⟨.set, closure, some s₁.vm.lasterror⟩ = 0 :=
        if_neg fun hc => hnull (Option.some.inj hc.2)
      simp only [hleaves] at htop ⊢
      omega

private theorem pushes_metaSet (self key val : SQObject) : Pushes (metaSet rt self key val) 0 := by
  apply (pushes_getMetaMethod self .set).zero_bind
  intro closure
  cases closure with
  | none => exact .pure _
  | some closure =>
    exact Pushes.cast ((pushes_push self).bind fun _ => (pushes_push key).bind fun _ =>
      (pushes_push val).bind fun _ => pushes_enterMetaMethod.zero_bind fun _ =>
        pushes_callMetaSet hcall closure) (by norm_num)

private theorem pushes_fallBackSet {set : SQObject → VmOp Bool} (hset : ∀ d, Pushes (set d) 0)
    (self key val : SQObject) : Pushes (fallBackSet rt set self key val) 0 := by
  unfold fallBackSet
  split
  · apply Adds.zero_bind (.read _)
    intro d
    cases d with
    | none => exact pushes_metaSet hcall _ key val
    | some d =>
      apply (hset (.table d)).zero_bind
      intro ok
      cases ok with
      | true => exact .pure _
      | false => exact pushes_metaSet hcall _ key val
  · exact pushes_metaSet hcall _ key val
  · exact pushes_metaSet hcall _ key val
  · exact .pure _

theorem pushes_set (fuel : ℕ) (self key val : SQObject) (selfidx : ℤ) :
    Pushes (set rt fuel self key val selfidx) 0 := by
  induction fuel generalizing self selfidx with
  | zero => exact .outOfFuel
  | succ fuel ih =>
    apply (pushes_setSlot self key val).zero_bind
    intro res
    cases res with
    | some ok => exact .pure ok
    | none =>
      apply (pushes_fallBackSet hcall (fun d => ih d DONT_FALL_BACK) self key val).zero_bind
      intro res
      cases res with
      | ok dest => exact .pure _
      | error => exact .pure _
      | noMatch => exact pushes_setRoot key val selfidx

end Set

end VmOp

end Squirt
