import Squirt.StackNeutral

/-!
# Stack balance of the operations

The operations on slots, clones, `foreach` and classes leave `_top` as it was, too. `FOREACH_OP`
resumes a suspended generator and so enters its frame.
-/

namespace Squirt

open Traced (Adds)

namespace Store

variable {s s' : Store}

private theorem setDelegate_vm {fuel : ℕ} {self : SQObject} {mt : Option ℕ} {ok : Bool}
    (h : s.setDelegate fuel self mt = some (s', ok)) : s'.vm = s.vm := by
  unfold setDelegate at h
  split at h
  · cases h
    rfl
  · obtain ⟨cycle, -, h⟩ := Option.map_eq_some_iff.mp h
    split at h
    · cases h
      rfl
    · cases h
      unfold putDelegate
      split <;> rfl

private theorem cloneTable_vm {fuel r nt : ℕ} (h : s.cloneTable fuel r = some (nt, s')) :
    s'.vm = s.vm := by
  obtain ⟨t, -, h⟩ := Option.bind_eq_some_iff.mp h
  obtain ⟨⟨s₁, ok⟩, hset, heq⟩ := Option.map_eq_some_iff.mp h
  cases heq
  have hvm := setDelegate_vm hset
  exact hvm

private theorem createClass_vm {base : Option ℕ} {n : ℕ} (h : s.createClass base = some (n, s')) :
    s'.vm = s.vm := by
  obtain ⟨heap, -, heq⟩ := Option.map_eq_some_iff.mp h
  cases heq
  rfl

private theorem setAttributes_vm (n : ℕ) (key val : SQObject) :
    (s.setAttributes n key val).vm = s.vm := by
  unfold setAttributes
  split <;> rfl

end Store

namespace VmOp

variable {rt : Runtime}

private theorem pushes_classNewSlot (r : ℕ) (key val : SQObject) (bstatic : Bool) :
    Pushes (classNewSlot rt r key val bstatic) 0 := by
  apply (pushes_step _).zero_bind
  · intro ok
    cases ok with
    | true => exact .pure _
    | false =>
      apply Adds.zero_bind (.read _)
      intro locked
      cases locked with
      | true => exact (pushes_raiseError _).zero_bind fun _ => .pure _
      | false => exact (pushes_raiseError _).zero_bind fun _ => .pure _
  · intro s ok s' h
    obtain ⟨heap, -, heq⟩ := Option.map_eq_some_iff.mp h
    cases heq
    rfl

private theorem pushes_deleteOwnSlot (self key : SQObject) : Pushes (deleteOwnSlot rt self key) 0
    := by
  unfold deleteOwnSlot
  split
  · apply Adds.zero_bind (.read _)
    intro t
    cases t with
    | none => exact (pushes_raiseIdxError key).zero_bind fun _ => .pure _
    | some t =>
      refine Adds.zero_bind (pushes_modify ?_) fun _ => .pure _
      intro s
      rfl
  · exact pushes_fail _

/-- The end of `NewSlot` on a table, which writes the slot itself -/
theorem pushes_rawNewSlot (r : ℕ) (key val : SQObject) (res : Option Bool) :
    Pushes (match res with
      | some ok => pure ok
      | none => do
        .modify fun s => s.setSlots r fun slots => slots.insert key val
        pure true : VmOp Bool) 0 := by
  cases res with
  | some ok => exact .pure _
  | none =>
    refine Adds.zero_bind (pushes_modify ?_) fun _ => .pure _
    intro s
    rfl

private theorem pushes_newMemberEnd (res : Option SQObject) : Pushes (match res with
    | some res => do
      .modify fun s => { s with temp_reg := res }
      pure true
    | none => pure false : VmOp Bool) 0 := by
  cases res with
  | none => exact .pure _
  | some res =>
    refine Adds.zero_bind (pushes_modify ?_) fun _ => .pure _
    intro s
    rfl

private theorem pushes_giveAttributes (n : ℕ) (attrs : SQObject) : Pushes (do
    .modify fun s => { s with attributes := Function.update s.attributes n attrs }
    pure (some (.clazz n)) : VmOp (Option SQObject)) 0 := by
  refine Adds.zero_bind (pushes_modify ?_) fun _ => .pure _
  intro s
  rfl

section Operations

variable (hcall : rt.KeepsTop)

include hcall

private theorem pushes_cloned (self newobj : SQObject) : Pushes (cloned rt self newobj) 0 := by
  apply (pushes_delegatedMetaMethod _ _).zero_bind
  intro closure
  cases closure with
  | some closure =>
    apply pushes_call_two hcall (by decide)
    intro res
    cases res with
    | some res => exact .pure _
    | none => exact .pure _
  | none => exact .pure _

private theorem pushes_clone (fuel : ℕ) (self : SQObject) : Pushes (clone rt fuel self) 0 := by
  unfold clone
  split
  · apply (pushes_step _).zero_bind
    · intro nt
      exact pushes_cloned hcall _ _
    · intro s nt s' h
      rw [Store.cloneTable_vm h]
  · apply (pushes_step _).zero_bind
    · intro i
      exact pushes_cloned hcall _ _
    · intro s i s' h
      obtain ⟨heap, -, heq⟩ := Option.map_eq_some_iff.mp h
      cases heq
      rfl
  · apply pushes_step
    intro s a s' h
    obtain ⟨values, -, heq⟩ := Option.map_eq_some_iff.mp h
    cases heq
    rfl
  · exact pushes_fail _

private theorem pushes_metaNewSlot (self key val : SQObject) :
    Pushes (metaNewSlot rt self key val) 0 := by
  apply (pushes_delegatedMetaMethod _ _).zero_bind
  intro closure
  cases closure with
  | some closure => exact pushes_call_three hcall (by decide) fun _ => .pure _
  | none => exact .pure _

theorem pushes_newSlot (self key val : SQObject) (bstatic : Bool) :
    Pushes (newSlot rt self key val bstatic) 0 := by
  have herror : ∀ message, Pushes (do raiseError message; pure false : VmOp Bool) 0 :=
    fun message => (pushes_raiseError message).zero_bind fun _ => .pure _
  unfold newSlot
  split
  · exact herror _
  · split
    · rename_i r
      apply Adds.zero_bind (.read _)
      intro found
      cases found with
      | true => exact Adds.zero_bind (.pure _) (pushes_rawNewSlot r key val)
      | false =>
        exact (pushes_metaNewSlot hcall _ key val).zero_bind (pushes_rawNewSlot r key val)
    · apply (pushes_metaNewSlot hcall _ key val).zero_bind
      intro res
      cases res with
      | some ok => exact .pure _
      | none => exact herror _
    · exact pushes_classNewSlot _ key val bstatic
    · exact herror _

private theorem pushes_newSlotAttrs (r : ℕ) (key val attrs : SQObject) (bstatic : Bool) :
    Pushes (newSlotAttrs rt r key val attrs bstatic) 0 := by
  apply (pushes_newSlot hcall _ key val bstatic).zero_bind
  intro ok
  cases ok with
  | false => exact .pure _
  | true =>
    by_cases hattrs : attrs ≠ .null
    · simp only [if_true, if_pos hattrs]
      refine Adds.zero_bind (pushes_modify ?_) fun _ => .pure _
      intro s
      rw [Store.setAttributes_vm]
    · simp only [if_true, if_neg hattrs]
      exact .pure _

private theorem pushes_newSlotA (self key val attrs : SQObject) (bstatic raw : Bool) :
    Pushes (newSlotA rt self key val attrs bstatic raw) 0 := by
  unfold newSlotA
  split
  · apply Adds.zero_bind (.read _)
    intro mm
    cases mm with
    | none => exact pushes_newSlotAttrs hcall _ key val attrs bstatic
    | some closure =>
      have hmeta := (pushes_callMetaMethod hcall (by decide : SQMetaMethod.newmember ≠ .set)
        closure 5).bind_zero pushes_newMemberEnd
      exact Pushes.cast ((pushes_push _).bind fun _ => (pushes_push _).bind fun _ =>
        (pushes_push _).bind fun _ => (pushes_push _).bind fun _ => (pushes_push _).bind fun _ =>
          hmeta) (by norm_num)
  · exact (pushes_raiseError _).zero_bind fun _ => .pure _

private theorem pushes_deleteDelegated (self key : SQObject) : Pushes (do
      match ← delegatedMetaMethod self .delslot with
      | some closure =>
        push self
        push key
        callMetaMethod rt closure .delslot 2
      | none => deleteOwnSlot rt self key : VmOp (Option SQObject)) 0 := by
  apply (pushes_delegatedMetaMethod _ _).zero_bind
  intro closure
  cases closure with
  | some closure =>
    have hmeta := pushes_callMetaMethod hcall (by decide : SQMetaMethod.delslot ≠ .set) closure 2
    exact Pushes.cast ((pushes_push self).bind fun _ => (pushes_push key).bind fun _ => hmeta)
      (by norm_num)
  | none => exact pushes_deleteOwnSlot self key

private theorem pushes_deleteSlot (self key : SQObject) : Pushes (deleteSlot rt self key) 0 := by
  unfold deleteSlot
  split
  · exact pushes_deleteDelegated hcall _ key
  · exact pushes_deleteDelegated hcall _ key
  · exact pushes_deleteDelegated hcall _ key
  · exact pushes_fail _

private theorem pushes_metaNext (fuel : ℕ) (o1 o4 : SQObject) (exitpos : ℤ) :
    Pushes (metaNext rt fuel o1 o4 exitpos) 0 := by
  apply (pushes_getMetaMethod o1 .nexti).zero_bind
  intro closure
  cases closure with
  | none => exact (pushes_raiseError _).zero_bind fun _ => .pure _
  | some closure =>
    apply pushes_call_two hcall (by decide)
    intro itr
    cases itr with
    | none => exact .pure _
    | some itr =>
      dsimp only
      split
      · exact .pure _
      · apply (pushes_get hcall fuel o1 itr false DONT_FALL_BACK).zero_bind
        intro val
        cases val with
        | some val => exact .pure _
        | none => exact (pushes_raiseError _).zero_bind fun _ => .pure _

private theorem pushes_foreachOp (fuel : ℕ) (o1 o4 : SQObject) (dest exitpos : ℤ)
    (hgen : ∀ g, o1 ≠ .generator g) : Pushes (foreachOp rt fuel o1 o4 dest exitpos) 0 := by
  have herror : ∀ message, Pushes (do
      raiseError message
      pure ⟨false, none, none, none, 0⟩ : VmOp Iteration) 0 :=
    fun message => (pushes_raiseError message).zero_bind fun _ => .pure _
  have hdelegated : Pushes (do
      if ← .read fun s => s.hasDelegate o1 then metaNext rt fuel o1 o4 exitpos
      else pure ⟨false, none, none, none, 0⟩ : VmOp Iteration) 0 := by
    apply Adds.zero_bind (.read _)
    intro found
    cases found with
    | true => exact pushes_metaNext hcall fuel o1 o4 exitpos
    | false => exact .pure _
  unfold foreachOp
  split
  · exact .read _
  · apply pushes_step
    intro s a s' h
    obtain ⟨idx, -, h⟩ := Option.bind_eq_some_iff.mp h
    obtain ⟨values, -, heq⟩ := Option.map_eq_some_iff.mp h
    cases heq
    rfl
  · apply pushes_step
    intro s a s' h
    obtain ⟨idx, -, h⟩ := Option.bind_eq_some_iff.mp h
    obtain ⟨next, -, heq⟩ := Option.map_eq_some_iff.mp h
    cases heq
    rfl
  · exact .read _
  · exact hdelegated
  · exact hdelegated
  · exact absurd rfl (hgen _)
  · exact herror _

/-- A class is created, its bases are told, and it gets its attributes. -/
theorem pushes_createClass (base : Option ℕ) (attrs : SQObject) : Pushes (do
    let n ← .step fun s => s.createClass base
    match ← .read fun s => (s.heap.classes[n]?).bind fun c =>
        c.metamethods SQMetaMethod.inherited.idx with
    | some closure =>
      push (.clazz n)
      push attrs
      let _ ← call rt .inherited closure 2
      pop 2
    | none => pure ()
    .modify fun s => { s with attributes := Function.update s.attributes n attrs }
    pure (some (.clazz n)) : VmOp (Option SQObject)) 0 := by
  apply (pushes_step _).zero_bind
  · intro n
    apply Adds.zero_bind (.read _)
    intro closure
    cases closure with
    | none => exact pushes_giveAttributes n attrs
    | some closure =>
      have hinherited := pushes_call hcall (by decide : SQMetaMethod.inherited ≠ .set) closure 2
      have hpop : Pushes (do
          pop 2
          .modify fun s => { s with attributes := Function.update s.attributes n attrs }
          pure (some (.clazz n)) : VmOp (Option SQObject)) (-2) :=
        (pushes_pop 2).bind_zero fun _ => pushes_giveAttributes n attrs
      exact Pushes.cast ((pushes_push _).bind fun _ => (pushes_push _).bind fun _ =>
        hinherited.zero_bind fun _ => hpop) (by norm_num)
  · intro s n s' h
    rw [Store.createClass_vm h]

private theorem pushes_classOp (baseclass attributes : ℤ) :
    Pushes (classOp rt baseclass attributes) 0 := by
  have hstk : ∀ a, Pushes (stk a) 0 := by
    intro a
    apply pushes_step
    intro s o s' h
    obtain ⟨o', -, heq⟩ := Option.map_eq_some_iff.mp h
    cases heq
    rfl
  have hbase : Pushes (VmOp.baseClass baseclass) 0 := by
    unfold VmOp.baseClass
    split
    · exact .pure _
    · apply (hstk baseclass).zero_bind
      intro o
      split
      · exact .pure _
      · exact pushes_fail _
  apply hbase.zero_bind
  intro base
  cases base with
  | none => exact .pure none
  | some base =>
    by_cases hmax : attributes ≠ MAX_FUNC_STACKSIZE
    · simp only [if_pos hmax]
      exact (hstk attributes).zero_bind (pushes_createClass hcall base)
    · simp only [if_neg hmax]
      exact Adds.zero_bind (.pure _) (pushes_createClass hcall base)

end Operations

/-- The generator, when it waits to be resumed -/
def waiting (s : Store) (g : ℕ) : Option SQGenerator :=
  (s.vm.generators[g]?).filter (·.state = .suspended)

private theorem waiting_none {s : Store} {g : ℕ}
    (h : (s.vm.generators[g]?).map SQGenerator.state ≠ some .suspended) : waiting s g = none := by
  unfold waiting
  rw [Option.filter_eq_none_iff]
  intro gen hgen hsuspended
  apply h
  rw [hgen, Option.map_some, of_decide_eq_true hsuspended]

private theorem waiting_some {s : Store} {g : ℕ} {gen : SQGenerator}
    (hgen : s.vm.generators[g]? = some gen)
    (hsuspended : gen.state = .suspended) : waiting s g = some gen := by
  unfold waiting
  rw [hgen, Option.filter_some, if_pos (decide_eq_true hsuspended)]

/-- A suspended generator gets a frame above the stack so far. -/
theorem resumeNext_top {g : ℕ} {dest exitpos : ℤ} {o1 o4 : SQObject} {s s' : Store} {a : Iteration}
    {events : List MetaCall} (h : resumeNext g dest o1 o4 exitpos s = .done a s' events) :
    s'.vm.top = match waiting s g with
      | some gen => s.vm.top + gen.stack.length
      | none => s.vm.top := by
  unfold resumeNext at h
  obtain ⟨state, s₁, events₁, events₂, hread, hrest, rfl⟩ := Traced.bind_done.mp h
  simp only [Traced.read, Outcome.done.injEq] at hread
  obtain ⟨hstate, rfl, rfl⟩ := hread
  split at hrest
  · cases hrest
    rw [waiting_none (by rw [hstate]; nofun)]
  · obtain ⟨gen, hgen, hsuspended⟩ := Option.map_eq_some_iff.mp hstate
    rw [waiting_some hgen hsuspended]
    obtain ⟨u, s₂, events₃, events₄, hstep, hpure, rfl⟩ := Traced.bind_done.mp hrest
    cases hpure
    unfold Traced.step at hstep
    split at hstep
    · rename_i hresume
      cases hstep
      obtain ⟨⟨vm, ok⟩, hvm, heq⟩ := Option.map_eq_some_iff.mp hresume
      cases heq
      obtain ⟨hresumed, -⟩ := SQVM.resume_spec hvm
      cases hresumed with
      | refused _ _ hne => exact absurd hstate hne
      | leaked f gen' hgen' _ hentered =>
        rw [hgen] at hgen'
        cases hgen'
        exact congrArg Snapshot.top hentered.snapshot
      | entered f gen' vm₁ hgen' _ _ hentered _ _ hsnap =>
        rw [hgen] at hgen'
        cases hgen'
        have htop : vm.top = vm₁.top := congrArg Snapshot.top hsnap
        exact htop.trans (congrArg Snapshot.top hentered.snapshot)
    · cases hstep
  · rename_i hdead hsuspended
    obtain ⟨u, s₂, events₃, events₄, hraise, hpure, rfl⟩ := Traced.bind_done.mp hrest
    cases hpure
    cases hraise
    rw [waiting_none (by rw [hstate]; exact hsuspended)]
    rfl

/-- The operations that invoke metamethods, with their operands -/
inductive Operation
  | get (self key : SQObject) (raw : Bool) (selfidx : ℤ)
  | set (self key val : SQObject) (selfidx : ℤ)
  | newSlot (self key val : SQObject) (bstatic : Bool)
  | newSlotA (self key val attrs : SQObject) (bstatic raw : Bool)
  | deleteSlot (self key : SQObject)
  | clone (self : SQObject)
  | typeOf (obj1 : SQObject)
  | toStr (o : SQObject)
  | objCmp (o1 o2 : SQObject)
  | isEqual (withVm : Bool) (o1 o2 : SQObject)
  | arithMetaMethod (op : ArithOp) (o1 o2 : SQObject)
  | negOp (trg o : SQObject)
  | foreachOp (o1 o4 : SQObject) (dest exitpos : ℤ)
  | classOp (baseclass attributes : ℤ)

namespace Operation

def discard {α : Type} (m : VmOp α) : VmOp Unit := do
  let _ ← m
  pure ()

/-- The operation, without what it returns -/
def run (rt : Runtime) (fuel : ℕ) : Operation → VmOp Unit
  | get self key raw selfidx => discard (VmOp.get rt fuel self key raw selfidx)
  | set self key val selfidx => discard (VmOp.set rt fuel self key val selfidx)
  | newSlot self key val bstatic => discard (VmOp.newSlot rt self key val bstatic)
  | newSlotA self key val attrs bstatic raw =>
    discard (VmOp.newSlotA rt self key val attrs bstatic raw)
  | deleteSlot self key => discard (VmOp.deleteSlot rt self key)
  | clone self => discard (VmOp.clone rt fuel self)
  | typeOf obj1 => discard (VmOp.typeOf rt obj1)
  | toStr o => discard (VmOp.toStr rt o)
  | objCmp o1 o2 => discard (VmOp.objCmp rt o1 o2)
  | isEqual withVm o1 o2 => discard (VmOp.isEqual rt withVm o1 o2)
  | arithMetaMethod op o1 o2 => discard (VmOp.arithMetaMethod rt op o1 o2)
  | negOp trg o => discard (VmOp.negOp rt trg o)
  | foreachOp o1 o4 dest exitpos => discard (VmOp.foreachOp rt fuel o1 o4 dest exitpos)
  | classOp baseclass attributes => discard (VmOp.classOp rt baseclass attributes)

/-- The generator that a `foreach` resumes -/
def resumed (s : Store) : Operation → Option SQGenerator
  | foreachOp (.generator g) _ _ _ => waiting s g
  | _ => none

private theorem pushes_discard {α : Type} {m : VmOp α} (h : Pushes m 0) : Pushes (discard m) 0 :=
  h.zero_bind fun _ => .pure _

private theorem pushes_run (hcall : rt.KeepsTop) (fuel : ℕ) (o : Operation)
    (hgen : ∀ g o4 dest exitpos, o ≠ .foreachOp (.generator g) o4 dest exitpos) :
    Pushes (o.run rt fuel) 0 := by
  cases o with
  | get self key raw selfidx => exact pushes_discard (pushes_get hcall fuel self key raw selfidx)
  | set self key val selfidx => exact pushes_discard (pushes_set hcall fuel self key val selfidx)
  | newSlot self key val bstatic => exact pushes_discard (pushes_newSlot hcall self key val bstatic)
  | newSlotA self key val attrs bstatic raw =>
    exact pushes_discard (pushes_newSlotA hcall self key val attrs bstatic raw)
  | deleteSlot self key => exact pushes_discard (pushes_deleteSlot hcall self key)
  | clone self => exact pushes_discard (pushes_clone hcall fuel self)
  | typeOf obj1 => exact pushes_discard (pushes_typeOf hcall obj1)
  | toStr o => exact pushes_discard (pushes_toStr hcall o)
  | objCmp o1 o2 => exact pushes_discard (pushes_objCmp hcall o1 o2)
  | isEqual withVm o1 o2 => exact pushes_discard (pushes_isEqual hcall withVm o1 o2)
  | arithMetaMethod op o1 o2 => exact pushes_discard (pushes_arithMetaMethod hcall op o1 o2)
  | negOp trg o => exact pushes_discard (pushes_negOp hcall trg o)
  | foreachOp o1 o4 dest exitpos =>
    apply pushes_discard
    apply pushes_foreachOp hcall
    rintro g rfl
    exact hgen g o4 dest exitpos rfl
  | classOp baseclass attributes => exact pushes_discard (pushes_classOp hcall baseclass attributes)

/-- Nothing is left by calls none of which is a `_set` that reports a clean failure. -/
theorem leaves_sum {events : List MetaCall} (h : ∀ e ∈ events, ¬ e.cleanSet) :
    (events.map MetaCall.leaves).sum = 0 := by
  apply List.sum_eq_zero
  intro n hn
  obtain ⟨e, he, rfl⟩ := List.mem_map.mp hn
  exact if_neg (h e he)

/-- When `Call` restores `_top` and no `_set` reports a clean failure, an operation leaves `_top`
as it has found it, but for the frame of a suspended generator that it resumes. -/
theorem stack_neutral (hcall : rt.KeepsTop) {fuel : ℕ} {o : Operation} {s s' : Store}
    {events : List MetaCall} (h : o.run rt fuel s = .done () s' events)
    (hset : ∀ e ∈ events, ¬ e.cleanSet) :
    s'.vm.top = match o.resumed s with
      | some gen => s.vm.top + gen.stack.length
      | none => s.vm.top := by
  by_cases hgen : ∃ g o4 dest exitpos, o = .foreachOp (.generator g) o4 dest exitpos
  · obtain ⟨g, o4, dest, exitpos, rfl⟩ := hgen
    obtain ⟨a, s₁, events₁, events₂, hrun, hpure, rfl⟩ := Traced.bind_done.mp h
    cases hpure
    exact resumeNext_top hrun
  · have hne : ∀ g o4 dest exitpos, o ≠ .foreachOp (.generator g) o4 dest exitpos :=
      fun g o4 dest exitpos heq => hgen ⟨g, o4, dest, exitpos, heq⟩
    have htop := pushes_run hcall fuel o hne s () s' events h
    rw [leaves_sum hset, add_zero, add_zero] at htop
    have hnone : o.resumed s = none := by
      unfold resumed
      split
      · rename_i g o4 dest exitpos
        exact absurd rfl (hne g o4 dest exitpos)
      · rfl
    rw [hnone]
    exact htop

theorem nullRuntime_keepsTop : nullRuntime.KeepsTop := by
  rintro s closure nparams stackbase s' res ⟨⟩
  rfl

/-- An instance whose class has a `_typeof`, and a generator that waits with one slot -/
def instanceStore : Store := { emptyStore with
  vm := { emptyStore.vm with generators := [{
    state := .suspended
    stack := [.null]
    ci := ⟨.null, none, 0, 0, 0, 0, 1, false⟩
    etraps := [] }] }
  heap := ⟨[{ SQClass.create none with metamethods := fun _ => some (.closure 0) }], [⟨0, []⟩]⟩
  memberDelegates := [none] }

/-- `typeof` of an instance -/
theorem stack_neutral_typeof : ∃ s', (typeOf (.instance_ 0)).run nullRuntime 0 instanceStore =
    .done () s' [⟨.typeof, .closure 0, none⟩] ∧ s'.vm.top = instanceStore.vm.top := by
  have hset : ∀ e ∈ [(⟨.typeof, .closure 0, none⟩ : MetaCall)], ¬ e.cleanSet := by decide
  have hrun : (typeOf (.instance_ 0)).run nullRuntime 0 instanceStore =
    .done () _ [⟨.typeof, .closure 0, none⟩] := rfl
  exact ⟨_, hrun, stack_neutral nullRuntime_keepsTop hrun hset⟩

/-- `foreach` does not leave `_top` as it was. -/
theorem foreach_enters : ¬ ∀ (rt : Runtime) (fuel : ℕ) (o : Operation) (s s' : Store)
    (events : List MetaCall), rt.KeepsTop → o.run rt fuel s = .done () s' events →
      s'.vm.top = s.vm.top := by
  intro h
  have htop := h nullRuntime 0 (foreachOp (.generator 0) .null 0 0) instanceStore _ []
    nullRuntime_keepsTop rfl
  revert htop
  decide

end Operation

end VmOp

end Squirt
