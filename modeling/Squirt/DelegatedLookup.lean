import Squirt.DelegateChains

/-!
# Lookup along the delegates

`Get` and `Set` go down the chain of delegates before they call any metamethod, so they come to an
end when the metamethods do.
-/

namespace Squirt

open Traced (Ends)
open LinkPaths

/-- `o` is `self` or a table that its delegates lead to. -/
def Store.LeadsFrom (s : Store) (self o : SQObject) : Prop :=
  o = self ∨ ∃ d t, s.delegate self = some d ∧ OnPath s.link (.table d) (.table t) ∧ o = .table t

/-- The call is one of a metamethod `mm` of `self` or of a table that its delegates lead to, and
does not return. -/
def Runtime.Hangs (rt : Runtime) (s : Store) (self : SQObject) (mm : SQMetaMethod) (nparams : ℕ)
    (s' : Store) (call : Option MetaCall) : Prop :=
  ∃ o closure, s.LeadsFrom self o ∧ s'.getMetaMethod o mm = some closure ∧
    call = some ⟨mm, closure, none⟩ ∧
    rt.call s' closure nparams (s'.vm.top - nparams) = none

/-- Arguments are pushed or popped where there is no stack, or a character is read outside the
string `self`. -/
def Runtime.Stuck (rt : Runtime) (self key : SQObject) (s : Store) : Prop :=
  (∃ o, s.vm.push o = none) ∨ (∃ n ≤ 3, s.vm.pop n = none) ∨
    ∃ str, self = .string str ∧ VmOp.getSlot rt self key s = .undefined s

namespace Store

variable {s : Store} {self o : SQObject} {d : ℕ}

private theorem LeadsFrom.of_delegate (hd : s.delegate self = some d)
    (h : s.LeadsFrom (.table d) o) :
    s.LeadsFrom self o := by
  obtain rfl | ⟨e, t, he, hpath, rfl⟩ := h
  · exact .inr ⟨d, d, hd, .refl, rfl⟩
  · refine .inr ⟨d, t, hd, ?_, rfl⟩
    apply Relation.ReflTransGen.head _ hpath
    change (s.delegate (.table d)).map TableRef.table = _
    rw [he, Option.map_some]

end Store

namespace VmOp

variable {rt : Runtime} {s s₀ s₁ : Store} {α : Type} {self key : SQObject} {mm : SQMetaMethod}
  {n nparams : ℕ} {stuck : Store → Prop} {hangs : Store → Option MetaCall → Prop}

/-- The store is the same but for what is on its VM. -/
def SameObjects (s s' : Store) : Prop := ∃ vm, s' = { s with vm := vm }

theorem SameObjects.refl (s : Store) : SameObjects s s := ⟨s.vm, rfl⟩

theorem SameObjects.push {o : SQObject} {u : Unit} {s' : Store} {events : List MetaCall}
    (h : SameObjects s₀ s) (hpush : push o s = .done u s' events) : SameObjects s₀ s' := by
  obtain ⟨vm, rfl⟩ := h
  unfold VmOp.push vmStep Traced.step at hpush
  split at hpush
  · rename_i hstep
    obtain ⟨vm', -, heq⟩ := Option.map_eq_some_iff.mp hstep
    cases heq
    cases hpush
    exact ⟨vm', rfl⟩
  · cases hpush

theorem SameObjects.getMetaMethod (h : SameObjects s₀ s) (o : SQObject) (mm : SQMetaMethod) :
    s.getMetaMethod o mm = s₀.getMetaMethod o mm := by
  obtain ⟨vm, rfl⟩ := h
  rfl

theorem ends_push (o : SQObject) : Ends (rt.Stuck self key) hangs (push o) s := by
  apply Ends.step
  intro h
  exact .inl ⟨o, Option.map_eq_none_iff.mp h⟩

theorem ends_pop (hn : n ≤ 3) : Ends (rt.Stuck self key) hangs (pop n) s := by
  apply Ends.step
  intro h
  exact .inr (.inl ⟨n, hn, Option.map_eq_none_iff.mp h⟩)

theorem SameObjects.enterMetaMethod (h : SameObjects s₀ s) : SameObjects s₀
    { s with vm := { s.vm with nmetamethodscall := s.vm.nmetamethodscall + 1 } } := by
  obtain ⟨vm, rfl⟩ := h
  exact ⟨_, rfl⟩

/-- A call of the metamethod that has been found -/
theorem ends_call {closure : SQObject} (hsame : SameObjects s₀ s)
    (hmm : s₀.getMetaMethod self mm = some closure) :
    Ends stuck (rt.Hangs s₁ self mm nparams) (call rt mm closure nparams) s := by
  cases h : rt.call s closure nparams (s.vm.top - nparams) with
  | none =>
    have hrun : call rt mm closure nparams s = .diverged s (some ⟨mm, closure, none⟩) := by
      rw [call, h]
    constructor
    · rw [hrun]
      exact nofun
    · rw [hrun]
      exact fun _ => nofun
    · rw [hrun]
      rintro _ _ ⟨⟩
      exact ⟨self, closure, .inl rfl, (hsame.getMetaMethod self mm).trans hmm, rfl, h⟩
  | some r =>
    obtain ⟨s', res⟩ := r
    cases res with
    | some res => exact .of_done (by rw [call, h])
    | none => exact .of_done (by rw [call, h])

theorem ends_getMetaMethod {k : Option SQObject → VmOp α}
    (hk : Ends stuck hangs (k (s.getMetaMethod self mm)) s) :
    Ends stuck hangs (getMetaMethod self mm >>= k) s := Ends.read_bind hk

/-- A raised error and its result -/
theorem ends_raise (message : String) (a : α) :
    Ends stuck hangs (do raiseError message; pure a) s :=
  Ends.bind_all (.modify _) fun _ _ => .pure a

/-! ## Get -/

private theorem ends_getSlot (self key : SQObject) :
    Ends (rt.Stuck self key) hangs (getSlot rt self key) s := by
  have hstuck : ∀ {str : String}, self = .string str →
      getSlot rt self key s = .undefined s → rt.Stuck self key s :=
    fun hself hslot => .inr (.inr ⟨_, hself, hslot⟩)
  unfold getSlot at hstuck ⊢
  split at hstuck
  · split
    · apply Ends.bind_all (.read _)
      intro dest s'
      cases dest with
      | some dest => exact .pure _
      | none => exact ends_raise _ _
    · exact .pure _
  · dsimp only at hstuck ⊢
    split
    · rename_i hkey
      rw [if_pos hkey] at hstuck
      split
      · rename_i hmin
        rw [if_pos hmin] at hstuck
        exact .step fun _ => hstuck rfl rfl
      · rename_i hmin
        rw [if_neg hmin] at hstuck
        split
        · rename_i hlt
          rw [if_pos hlt] at hstuck
          refine .step fun hnone => hstuck rfl ?_
          rw [Traced.step, hnone]
        · exact ends_raise _ _
    · exact .pure _
  · exact .read _

/-- A lookup that goes on has changed nothing. -/
theorem getSlot_none {self key : SQObject} {s' : Store} {events : List MetaCall}
    (h : getSlot rt self key s = .done none s' events) : s' = s := by
  unfold getSlot at h
  split at h
  · split at h
    · obtain ⟨dest, s₁, events₁, events₂, hread, hrest, -⟩ := Traced.bind_done.mp h
      cases dest with
      | some dest => cases hrest
      | none =>
        obtain ⟨u, s₂, events₃, events₄, -, hpure, -⟩ := Traced.bind_done.mp hrest
        cases hpure
    · cases h
      rfl
  · split at h
    · dsimp only at h
      split at h
      · cases h
      · split at h
        · unfold Traced.step at h
          split at h
          · rename_i hstep
            obtain ⟨c, -, heq⟩ := Option.map_eq_some_iff.mp hstep
            cases heq
            cases h
          · cases h
        · obtain ⟨u, s₂, events₃, events₄, -, hpure, -⟩ := Traced.bind_done.mp h
          cases hpure
    · cases h
      rfl
  · unfold Traced.read at h
    injection h with _ hs
    exact hs.symm

theorem ends_metaGet (self key : SQObject) :
    Ends (rt.Stuck self key) (rt.Hangs s₀ self .get 2) (metaGet rt self key) s := by
  unfold metaGet
  apply ends_getMetaMethod
  cases hmm : s.getMetaMethod self .get with
  | none => exact .pure _
  | some closure =>
    apply Ends.bind (ends_push _)
    intro _ s₁ _ h₁
    have hsame₁ := (SameObjects.refl s).push h₁
    apply Ends.bind (ends_push _)
    intro _ s₂ _ h₂
    have hsame₂ := hsame₁.push h₂
    apply Ends.bind (.modify _)
    rintro _ _ _ ⟨⟩
    apply Ends.bind_all (ends_call hsame₂.enterMetaMethod hmm)
    intro res s
    cases res with
    | some dest =>
      apply Ends.bind_all (ends_pop (by decide))
      intro _ s
      exact Ends.bind_all (.modify _) fun _ _ => .pure _
    | none =>
      apply Ends.bind_all (ends_pop (by decide))
      intro _ s
      apply Ends.bind_all (.modify _)
      intro _ s
      apply Ends.bind_all (.read _)
      intro error s
      split <;> exact .pure _

/-- A lookup in the delegate, and then in `self` -/
def DelegateEnds (rt : Runtime) (s : Store) (self key : SQObject) (mm : SQMetaMethod)
    (nparams : ℕ) (lookup : SQObject → VmOp α) : Prop :=
  ∀ d, s.delegate self = some d →
    Ends (rt.Stuck (.table d) key) (rt.Hangs s (.table d) mm nparams) (lookup (.table d)) s

/-- Calls for the delegate are calls for the object. -/
theorem DelegateEnds.ends {lookup : SQObject → VmOp α} {d : ℕ}
    (h : DelegateEnds rt s self key mm nparams lookup) (hd : s.delegate self = some d) :
    Ends (rt.Stuck self key) (rt.Hangs s self mm nparams) (lookup (.table d)) s := by
  apply (h d hd).mono
  · rintro s' (hpush | hpop | ⟨str, hself, -⟩)
    · exact .inl hpush
    · exact .inr (.inl hpop)
    · cases hself
  · rintro s' call ⟨o, closure, hleads, hcall⟩
    exact ⟨o, closure, hleads.of_delegate hd, hcall⟩

private theorem ends_getFromDelegate {get : SQObject → VmOp (Option SQObject)} {self key : SQObject}
    (hget : DelegateEnds rt s self key .get 2 get) :
    Ends (rt.Stuck self key) (rt.Hangs s self .get 2) (do
      match ← .read fun s => s.delegate self with
      | some d =>
        match ← get (.table d) with
        | some dest => pure (.ok dest)
        | none => metaGet rt self key
      | none => pure .noMatch : VmOp FallBack) s := by
  apply Ends.read_bind
  cases hd : s.delegate self with
  | none => exact .pure _
  | some d =>
    apply Ends.bind_all (hget.ends hd)
    intro dest s'
    cases dest with
    | some dest => exact .pure _
    | none => exact ends_metaGet self key

theorem ends_fallBackGet {get : SQObject → VmOp (Option SQObject)} {self key : SQObject}
    (hget : DelegateEnds rt s self key .get 2 get) :
    Ends (rt.Stuck self key) (rt.Hangs s self .get 2) (fallBackGet rt get self key) s := by
  unfold fallBackGet
  split
  · exact ends_getFromDelegate hget
  · exact ends_getFromDelegate hget
  · exact ends_metaGet _ key
  · exact .pure _

private theorem ends_getRoot (key : SQObject) (selfidx : ℤ) :
    Ends stuck hangs (getRoot rt key selfidx) s := by
  apply Ends.bind_all (.read _)
  intro dest s
  cases dest with
  | some dest => exact .pure _
  | none => exact ends_raise _ _

/-- With more fuel than the chain of delegates is long, `Get` ends. -/
theorem ends_get {rank : TableRef → ℕ} (hs : s.Ranked rank) {fuel : ℕ} {self : SQObject}
    (hfuel : Store.height rank (s.delegate self) < fuel) (key : SQObject) (raw : Bool)
    (selfidx : ℤ) :
    Ends (rt.Stuck self key) (rt.Hangs s self .get 2) (get rt fuel self key raw selfidx) s := by
  induction fuel generalizing self raw selfidx with
  | zero => exact absurd hfuel (Nat.not_lt_zero _)
  | succ fuel ih =>
    apply Ends.bind (ends_getSlot self key)
    intro res s' events h
    cases res with
    | some res => exact .pure res
    | none =>
      rw [getSlot_none h]
      cases raw with
      | true => exact ends_getRoot key selfidx
      | false =>
        have hget : DelegateEnds rt s self key .get 2
            fun d => get rt fuel d key false DONT_FALL_BACK := by
          intro d hd
          rw [hd] at hfuel
          exact ih ((hs.height_le d).trans_lt (Nat.lt_of_succ_lt_succ hfuel)) _ _
        apply (ends_fallBackGet hget).bind_all
        intro res s'
        cases res with
        | ok dest => exact .pure _
        | error => exact .pure _
        | noMatch =>
          apply Ends.bind_all (.read _)
          intro dest s'
          cases dest with
          | some dest => exact .pure _
          | none => exact ends_getRoot key selfidx

/-! ## Set -/

private theorem ends_setSlot (self key val : SQObject) :
    Ends stuck hangs (setSlot rt self key val) s := by
  unfold setSlot
  split
  · refine .step fun hnone => ?_
    split at hnone <;> cases hnone
  · refine .step fun hnone => ?_
    split at hnone <;> cases hnone
  · split
    · exact ends_raise _ _
    · refine Ends.bind_all (.step fun hnone => ?_) ?_
      · split at hnone <;> cases hnone
      · intro found s'
        cases found with
        | true => exact .pure _
        | false => exact ends_raise _ _
  · exact ends_raise _ _

private theorem setSlot_none {self key val : SQObject} {s' : Store} {events : List MetaCall}
    (h : setSlot rt self key val s = .done none s' events) : s' = s := by
  unfold setSlot at h
  split at h
  · unfold Traced.step at h
    split at h
    · rename_i hstep
      dsimp only at hstep
      split at hstep
      · cases hstep
        cases h
      · cases hstep
        cases h
        rfl
    · cases h
  · unfold Traced.step at h
    split at h
    · rename_i hstep
      dsimp only at hstep
      split at hstep
      · cases hstep
        cases h
      · cases hstep
        cases h
        rfl
    · cases h
  · split at h
    · obtain ⟨u, s₂, events₃, events₄, -, hpure, -⟩ := Traced.bind_done.mp h
      cases hpure
    · obtain ⟨found, s₁, events₁, events₂, -, hrest, -⟩ := Traced.bind_done.mp h
      cases found with
      | true => cases hrest
      | false =>
        obtain ⟨u, s₂, events₃, events₄, -, hpure, -⟩ := Traced.bind_done.mp hrest
        cases hpure
  · obtain ⟨u, s₂, events₃, events₄, -, hpure, -⟩ := Traced.bind_done.mp h
    cases hpure

private theorem ends_metaSet (self key val : SQObject) :
    Ends (rt.Stuck self key) (rt.Hangs s₀ self .set 3) (metaSet rt self key val) s := by
  unfold metaSet
  apply ends_getMetaMethod
  cases hmm : s.getMetaMethod self .set with
  | none => exact .pure _
  | some closure =>
    apply Ends.bind (ends_push _)
    intro _ s₁ _ h₁
    have hsame₁ := (SameObjects.refl s).push h₁
    apply Ends.bind (ends_push _)
    intro _ s₂ _ h₂
    have hsame₂ := hsame₁.push h₂
    apply Ends.bind (ends_push _)
    intro _ s₃ _ h₃
    have hsame₃ := hsame₂.push h₃
    apply Ends.bind (.modify _)
    rintro _ _ _ ⟨⟩
    apply Ends.bind_all (ends_call hsame₃.enterMetaMethod hmm)
    intro res s
    cases res with
    | some dest =>
      apply Ends.bind_all (ends_pop le_rfl)
      intro _ s
      exact Ends.bind_all (.modify _) fun _ _ => .pure _
    | none =>
      apply Ends.bind_all (.read _)
      intro error s
      split
      · apply Ends.bind_all (ends_pop le_rfl)
        intro _ s
        exact Ends.bind_all (.modify _) fun _ _ => .pure _
      · exact Ends.bind_all (.modify _) fun _ _ => .pure _

theorem ends_fallBackSet {set : SQObject → VmOp Bool} {self key val : SQObject}
    (hset : DelegateEnds rt s self key .set 3 set) :
    Ends (rt.Stuck self key) (rt.Hangs s self .set 3) (fallBackSet rt set self key val) s := by
  unfold fallBackSet
  split
  · rename_i r
    apply Ends.read_bind
    cases hd : s.delegate (.table r) with
    | none => exact ends_metaSet _ key val
    | some d =>
      apply Ends.bind_all (hset.ends hd)
      intro ok s'
      cases ok with
      | true => exact .pure _
      | false => exact ends_metaSet _ key val
  · exact ends_metaSet _ key val
  · exact ends_metaSet _ key val
  · exact .pure _

private theorem ends_setRoot (key val : SQObject) (selfidx : ℤ) :
    Ends stuck hangs (setRoot rt key val selfidx) s := by
  refine Ends.bind_all (.step fun hnone => ?_) ?_
  · split at hnone
    · split at hnone <;> cases hnone
    · cases hnone
  · intro found s
    cases found with
    | true => exact .pure _
    | false => exact ends_raise _ _

private theorem ends_set {rank : TableRef → ℕ} (hs : s.Ranked rank) {fuel : ℕ} {self : SQObject}
    (hfuel : Store.height rank (s.delegate self) < fuel) (key val : SQObject) (selfidx : ℤ) :
    Ends (rt.Stuck self key) (rt.Hangs s self .set 3) (set rt fuel self key val selfidx) s := by
  induction fuel generalizing self selfidx with
  | zero => exact absurd hfuel (Nat.not_lt_zero _)
  | succ fuel ih =>
    apply Ends.bind (ends_setSlot self key val)
    intro res s' events h
    cases res with
    | some ok => exact .pure ok
    | none =>
      rw [setSlot_none h]
      have hset : DelegateEnds rt s self key .set 3
          fun d => set rt fuel d key val DONT_FALL_BACK := by
        intro d hd
        rw [hd] at hfuel
        exact ih ((hs.height_le d).trans_lt (Nat.lt_of_succ_lt_succ hfuel)) _
      apply (ends_fallBackSet hset).bind_all
      intro res s'
      cases res with
      | ok dest => exact .pure _
      | error => exact .pure _
      | noMatch => exact ends_setRoot key val selfidx

end VmOp

namespace Store

variable {s : Store}

/-- `SetDelegate` of `mt` for a table returns, and refuses just what would close a cycle. -/
def SetsDelegate (s : Store) (fuel r : ℕ) (mt : Option ℕ) : Prop :=
  ((s.putDelegate (.table r) mt).Cyclic ∧ s.setDelegate fuel (.table r) mt = some (s, false)) ∨
    (¬ (s.putDelegate (.table r) mt).Cyclic ∧
      s.setDelegate fuel (.table r) mt = some (s.putDelegate (.table r) mt, true))

theorem Ranked.setDelegate {rank : TableRef → ℕ} (hs : s.Ranked rank) (self : SQObject)
    {fuel : ℕ} {mt : Option ℕ} (hfuel : height rank mt ≤ fuel) :
    ∃ s' ok, s.setDelegate fuel self mt = some (s', ok) := by
  unfold Store.setDelegate
  split
  · exact ⟨s, false, rfl⟩
  · obtain ⟨cycle, hcycle⟩ := hs.closesCycle self hfuel
    rw [hcycle]
    cases cycle with
    | true => exact ⟨s, false, rfl⟩
    | false => exact ⟨_, true, rfl⟩

private theorem Ranked.setsDelegate {rank : TableRef → ℕ} (hs : s.Ranked rank) {r : ℕ}
    (hr : r < s.tables.length) {fuel : ℕ} {mt : Option ℕ} (hfuel : height rank mt ≤ fuel) :
    s.SetsDelegate fuel r mt := by
  obtain ⟨s', ok, h⟩ := hs.setDelegate (.table r) hfuel
  have hiff := leadsTo_iff hr mt ⟨rank, hs⟩
  obtain ⟨rfl, rfl, hno⟩ | ⟨rfl, rfl, hleads⟩ := setDelegate_table h
  · exact .inr ⟨fun hcyclic => hno (hiff.mpr hcyclic), h⟩
  · exact .inl ⟨hiff.mp hleads, h⟩

/-- `Get`, `Set`, `FallBackGet` and `FallBackSet` of `self` end unless a metamethod that they call
does not. -/
structure LookupEnds (rt : Runtime) (s : Store) (fuel : ℕ) (self key : SQObject) : Prop where
  get : ∀ raw selfidx, Ends (rt.Stuck self key) (rt.Hangs s self .get 2)
    (VmOp.get rt fuel self key raw selfidx) s
  set : ∀ val selfidx, Ends (rt.Stuck self key) (rt.Hangs s self .set 3)
    (VmOp.set rt fuel self key val selfidx) s
  fallBackGet : Ends (rt.Stuck self key) (rt.Hangs s self .get 2) (VmOp.fallBackGet rt
    (fun d => VmOp.get rt fuel d key false VmOp.DONT_FALL_BACK) self key) s
  fallBackSet : ∀ val, Ends (rt.Stuck self key) (rt.Hangs s self .set 3) (VmOp.fallBackSet rt
    (fun d => VmOp.set rt fuel d key val VmOp.DONT_FALL_BACK) self key val) s

private theorem Ranked.lookupEnds {rank : TableRef → ℕ} (hs : s.Ranked rank) (rt : Runtime)
    {fuel : ℕ}
    {self : SQObject} (hfuel : height rank (s.delegate self) < fuel) (key : SQObject) :
    LookupEnds rt s fuel self key where
  get := VmOp.ends_get hs hfuel key
  set := VmOp.ends_set hs hfuel key
  fallBackGet := by
    apply VmOp.ends_fallBackGet
    intro d hd
    rw [hd] at hfuel
    exact VmOp.ends_get hs ((hs.height_le d).trans_lt (Nat.lt_of_succ_lt hfuel)) key _ _
  fallBackSet := by
    intro val
    apply VmOp.ends_fallBackSet
    intro d hd
    rw [hd] at hfuel
    exact VmOp.ends_set hs ((hs.height_le d).trans_lt (Nat.lt_of_succ_lt hfuel)) key val _

/-- No table is its own delegate, directly or through others; `SetDelegate` refuses just what
would make one so; and lookup ends when the metamethods it calls do. -/
theorem delegation_acyclic (h : Reachable s) (rt : Runtime) :
    (∀ t, ¬ Relation.TransGen (fun x y => s.link x = some y) t t) ∧
      (∀ r < s.tables.length, ∀ mt, ∃ n, ∀ fuel ≥ n, s.SetsDelegate fuel r mt) ∧
      (∀ u mt, ∃ n, ∀ fuel ≥ n, s.setDelegate fuel (.userdata u) mt =
        some (s.putDelegate (.userdata u) mt, true)) ∧
      ∀ self key, ∃ n, ∀ fuel ≥ n, LookupEnds rt s fuel self key := by
  obtain ⟨rank, hrank⟩ := h.acyclic
  have hs : s.Ranked rank := hrank
  refine ⟨?_, ?_, ?_, ?_⟩
  · exact fun t => h.acyclic.not_transGen
  · intro r hr mt
    exact ⟨height rank mt, fun fuel hfuel => hs.setsDelegate hr hfuel⟩
  · intro u mt
    refine ⟨height rank mt, fun fuel hfuel => ?_⟩
    obtain ⟨s', ok, h⟩ := hs.setDelegate (.userdata u) hfuel
    obtain ⟨rfl, rfl⟩ := setDelegate_userdata h
    exact h
  · intro self key
    exact ⟨height rank (s.delegate self) + 1, fun fuel hfuel => hs.lookupEnds rt hfuel key⟩

/-- Two tables that are on the stack -/
def tablePair : Store :=
  { emptyStore with
    tables := [⟨∅, none⟩, ⟨∅, none⟩]
    vm := { emptyStore.vm with
      stack := .table 0 :: .table 1 :: List.replicate 38 .null
      top := 2 } }

/-- The second table becomes the delegate of the first one, and the first one is refused as the
delegate of the second. -/
theorem delegation_acyclic_pair : ∃ s, tablePair.sq_setdelegate 2 (-2) = some (s, true) ∧
    s.delegate (.table 0) = some 1 ∧ ∃ n, ∀ fuel ≥ n, s.SetsDelegate fuel 1 (some 0) := by
  have hstart : Reachable tablePair := .start (by decide) rfl rfl
  have hset := hstart.setdelegate
    (show tablePair.sq_setdelegate 2 (-2) = some (_, true) from rfl)
  exact ⟨_, rfl, rfl, (delegation_acyclic hset nullRuntime).2.1 1 (by decide) (some 0)⟩

end Store

end Squirt
