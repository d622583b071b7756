import Squirt.HeapOrder
import Squirt.TracedTriples
import Squirt.DelegateChains

/-!
# `array.sort`

The heap sort of arrays, with `ObjCmp` or a function of the program to compare. The children of a
node `i` are `2 * i` and `2 * i + 1`, so that the first node is a child of itself.
-/

namespace Squirt

open HeapOrder Traced

/-- `_array(o)->_values = values` -/
def Store.setArray (s : Store) (r : ℕ) (values : List SQObject) : Store :=
  { s with vm := { s.vm with arrays := s.vm.arrays.set r values } }

namespace ArraySort

open VmOp

variable (rt : Runtime)

/-- `stack_get(v, idx)` -/
def stackAt (idx : ℤ) : VmOp SQObject := .step fun s => (s.stackGet idx).map (·, s)

def sq_gettop : VmOp ℤ := .read fun s => s.vm.top - s.vm.stackbase

def sq_settop (newtop : ℤ) : VmOp Unit := do
  let top ← sq_gettop
  if top > newtop then pop (top - newtop).toNat
  else pushAll (List.replicate (newtop - top).toNat .null)

/-- `Call` of a closure that is no metamethod -/
def callClosure (closure : SQObject) (nparams : ℕ) : VmOp (Option SQObject) := fun s =>
  match rt.call s closure nparams (s.vm.top - nparams) with
  | none => .diverged s none
  | some (s, res) => .done res s []

/-- `sq_call(v, params, SQTrue, SQFalse)`; the `Bool` is whether it returns `SQ_OK`. -/
def sq_call (params : ℕ) : VmOp Bool := do
  let closure ← stackAt (-(params + 1))
  match ← callClosure rt closure params with
  | some res =>
    if ← .read fun s => s.vm.suspended then pure () else pop params
    push res
    pure true
  | none =>
    pop params
    pure false

def sq_getinteger (idx : ℤ) : VmOp (Option ℤ) := do
  let o ← stackAt idx
  pure (if o.isnumeric then some (tointeger rt o) else none)

/-- `_sort_compare`, none for false; without a function `func` is negative. -/
def _sort_compare (func : Option ℤ) (a b : SQObject) : VmOp (Option ℤ) :=
  match func with
  | none => objCmp rt a b
  | some func => do
    let top ← sq_gettop
    push (← stackAt func)
    push (.table (← .read Store.roottable))
    push a
    push b
    if ← sq_call rt 3 then
      match ← sq_getinteger rt (-1) with
      | some ret =>
        sq_settop top
        pure (some ret)
      | none => fail "numeric value expected as return value of the compare function"
    else
      if (← .read fun s => s.vm.lasterror.type) ≠ 0x10 then raiseError "compare func failed"
      pure none

/-- `arr->_values[i]` -/
def value (r i : ℕ) : VmOp SQObject :=
  .step fun s => ((s.vm.arrays[r]?).bind fun values => values[i]?).map (·, s)

/-- `_Swap(arr->_values[i], arr->_values[j])` -/
def _Swap (r i j : ℕ) : VmOp Unit :=
  .step fun s => (s.vm.arrays[r]?).bind fun values =>
    (values[i]?).bind fun a => (values[j]?).map fun b =>
      ((), s.setArray r ((values.set i b).set j a))

/-- `maxChild` in the loop of `_hsort_sift_down`, none when a comparison fails -/
def maxChild (r : ℕ) (func : Option ℤ) (bottom root2 : ℕ) : VmOp (Option ℕ) :=
  if root2 = bottom then pure (some root2)
  else do
    match ← _sort_compare rt func (← value r root2) (← value r (root2 + 1)) with
    | some ret => pure (some (if ret > 0 then root2 else root2 + 1))
    | none => pure none

def _hsort_sift_down (r : ℕ) (func : Option ℤ) (bottom : ℕ) : ℕ → ℕ → VmOp Bool
  | 0, _ => .outOfFuel
  | fuel + 1, root =>
    if root * 2 ≤ bottom then do
      match ← maxChild rt r func bottom (root * 2) with
      | none => pure false
      | some maxChild =>
        match ← _sort_compare rt func (← value r root) (← value r maxChild) with
        | none => pure false
        | some ret =>
          if ret < 0 then
            if root = maxChild then do
              raiseError "inconsistent compare function"
              pure false
            else do
              _Swap r root maxChild
              _hsort_sift_down r func bottom fuel maxChild
          else pure true
    else pure true

/-- The first loop of `_hsort`, with the nodes before `i` to come -/
def build (fuel r : ℕ) (func : Option ℤ) (bottom : ℕ) : ℕ → VmOp Bool
  | 0 => pure true
  | i + 1 => do
    if ← _hsort_sift_down rt r func bottom fuel i then build fuel r func bottom i else pure false

/-- The second loop of `_hsort`, with `i` the last node of the heap -/
def extract (fuel r : ℕ) (func : Option ℤ) : ℕ → VmOp Bool
  | 0 => pure true
  | i + 1 => do
    _Swap r 0 (i + 1)
    if ← _hsort_sift_down rt r func i fuel 0 then extract fuel r func i else pure false

def _hsort (fuel r : ℕ) (func : Option ℤ) : VmOp Bool := do
  let array_size ← .read fun s => ((s.vm.arrays[r]?).getD []).length
  if ← build rt fuel r func (array_size - 1) (array_size / 2 + 1) then
    extract rt fuel r func (array_size - 1)
  else pure false

/-- `func` in `array_sort` -/
def sortFunc (s : Store) : Option ℤ := if s.vm.top - s.vm.stackbase = 2 then some 2 else none

/-- `array_sort`, false for `SQ_ERROR` -/
def array_sort (fuel : ℕ) : VmOp Bool := do
  match ← stackAt 1 with
  | .array r =>
    if (← .read fun s => ((s.vm.arrays[r]?).getD []).length) > 1 then
      _hsort rt fuel r (← .read sortFunc)
    else pure true
  | _ => .step fun _ => none

/-! ## What is asked of comparisons -/

variable (func : Option ℤ) (r : ℕ) (I : Store → Prop) (xs : List SQObject)
  (cmp : SQObject → SQObject → ℤ)

/-- In the states `I`, which the sort does not leave, comparing elements of `xs` does not touch the
array. -/
structure LeavesArray : Prop where
  compare : ∀ s, I s → ∀ a ∈ xs, ∀ b ∈ xs, ∀ res s' events,
    _sort_compare rt func a b s = .done res s' events →
      I s' ∧ s'.vm.arrays[r]? = s.vm.arrays[r]?
  write : ∀ s values, I s → I (s.setArray r values)

/-- In the states `I` elements of `xs` are compared with success, as by `cmp`. -/
def ComparesAs : Prop :=
  ∀ s, I s → ∀ a ∈ xs, ∀ b ∈ xs, ∃ s' events,
    _sort_compare rt func a b s = .done (some (cmp a b)) s' events

/-- A total preorder on the elements of `xs`, by the sign of `cmp` -/
structure TotalPreorder : Prop where
  flip : ∀ a ∈ xs, ∀ b ∈ xs, cmp a b < 0 ↔ 0 < cmp b a
  trans : ∀ a ∈ xs, ∀ b ∈ xs, ∀ c ∈ xs, cmp a b ≤ 0 → cmp b c ≤ 0 → cmp a c ≤ 0

variable {rt func r I xs cmp} {good : Prop} {s s' : Store} {ys : List SQObject}
  {bottom root fuel lo : ℕ}

/-! ## The comparison returns or does not, but it has no loop -/

theorem fueled_push (o : SQObject) : Fueled (push o) := fueled_step _

theorem fueled_fail {α : Type} (message : String) : Fueled (fail message : VmOp (Option α)) :=
  (fueled_modify _).bind fun _ => fueled_pure _

private theorem fueled_callMetaMethod (closure : SQObject) (mm : SQMetaMethod) (nparams : ℕ) :
    Fueled (callMetaMethod rt closure mm nparams) := by
  have hcall : Fueled (call rt mm closure nparams) := by
    intro s h
    unfold call at h
    split at h <;> cases h
  exact (fueled_modify _).bind fun _ => hcall.bind fun _ => (fueled_modify _).bind fun _ =>
    (fueled_step _).bind fun _ => fueled_pure _

private theorem fueled_objCmp (a b : SQObject) : Fueled (objCmp rt a b) := by
  unfold objCmp
  split
  · split
    · exact fueled_pure _
    split
    · exact fueled_pure _
    · exact fueled_pure _
    · exact fueled_pure _
    refine Fueled.bind ?_ fun mm => ?_
    · refine (fueled_read _).bind fun has => ?_
      split
      · exact fueled_read _
      · exact fueled_pure _
    split
    · refine (fueled_push _).bind fun _ => (fueled_push _).bind fun _ =>
        (fueled_callMetaMethod _ _ _).bind fun res => ?_
      split
      · exact fueled_pure _
      · exact fueled_fail _
      · exact fueled_pure _
    · exact fueled_pure _
  · split
    · exact fueled_pure _
    split
    · exact fueled_pure _
    split
    · exact fueled_pure _
    · exact (fueled_modify _).bind fun _ => fueled_pure _

private theorem fueled_sq_call (params : ℕ) : Fueled (sq_call rt params) := by
  have hcall : ∀ closure, Fueled (callClosure rt closure params) := by
    intro closure s h
    unfold callClosure at h
    split at h <;> cases h
  refine (fueled_step _).bind fun closure => (hcall closure).bind fun res => ?_
  split
  · refine (fueled_read _).bind fun suspended => ?_
    split
    · exact (fueled_push _).bind fun _ => fueled_pure _
    · exact (fueled_step _).bind fun _ => (fueled_push _).bind fun _ => fueled_pure _
  · exact (fueled_step _).bind fun _ => fueled_pure _

private theorem fueled_sort_compare (a b : SQObject) : Fueled (_sort_compare rt func a b) := by
  cases func with
  | none => exact fueled_objCmp a b
  | some func =>
    refine (fueled_read _).bind fun top => (fueled_step _).bind fun closure =>
      (fueled_push _).bind fun _ => (fueled_read _).bind fun roottable =>
      (fueled_push _).bind fun _ => (fueled_push _).bind fun _ => (fueled_push _).bind fun _ =>
      (fueled_sq_call 3).bind fun ok => ?_
    split_ifs
    · refine ((fueled_step _).bind fun _ => fueled_pure _).bind fun ret => ?_
      split
      · refine Fueled.bind ?_ fun _ => fueled_pure _
        refine (fueled_read _).bind fun top => ?_
        split_ifs
        · exact fueled_step _
        · exact fueled_step _
      · exact fueled_fail _
    · refine (fueled_read _).bind fun type => ?_
      split_ifs
      · exact (fueled_modify _).bind fun _ => fueled_pure _
      · exact fueled_pure _

/-! ## One comparison and one swap -/

/-- What is at a position -/
def elementAt (values : List SQObject) (k : ℕ) : Option SQObject := values[k]?

/-- In a state of the sort the array holds `ys`, the elements of `xs` in some order. -/
structure Sorting (r : ℕ) (I : Store → Prop) (xs : List SQObject) (s : Store) (ys : List SQObject) :
    Prop where
  state : I s
  array : s.vm.arrays[r]? = some ys
  perm : ys.Perm xs

/-- The hypotheses on the comparison; where it is no `good` one, it only leaves the array. -/
structure Comparing (rt : Runtime) (func : Option ℤ) (r : ℕ) (I : Store → Prop)
    (xs : List SQObject) (cmp : SQObject → SQObject → ℤ) (good : Prop) : Prop where
  leaves : LeavesArray rt func r I xs
  compares : good → ComparesAs rt func I xs cmp
  preorder : good → TotalPreorder xs cmp

theorem Sorting.value (h : Sorting r I xs s ys) {i : ℕ} (hi : i < ys.length) {fails : Prop}
    {Q : SQObject → Store → Prop} (hQ : ∀ a ∈ xs, elementAt ys i = some a → Q a s) :
    Ensures fails (value r i) s Q := by
  have hget : ys[i]? = some ys[i] := List.getElem?_eq_getElem hi
  refine ensures_step ?_ (hQ ys[i] (h.perm.mem_iff.mp (List.getElem_mem hi)) hget)
  rw [h.array, Option.bind_some, hget]
  rfl

theorem Comparing.compare (h : Comparing rt func r I xs cmp good) (hs : Sorting r I xs s ys)
    {a b : SQObject} (ha : a ∈ xs) (hb : b ∈ xs) :
    Ensures (¬ good) (_sort_compare rt func a b) s fun res s' =>
      Sorting r I xs s' ys ∧ (good → res = some (cmp a b)) := by
  have hleaves : ∀ res s' events, _sort_compare rt func a b s = .done res s' events →
      Sorting r I xs s' ys := by
    intro res s' events hdone
    obtain ⟨hI, harray⟩ := h.leaves.compare s hs.state a ha b hb res s' events hdone
    exact ⟨hI, harray.trans hs.array, hs.perm⟩
  by_cases hgood : good
  · obtain ⟨s', events, hdone⟩ := h.compares hgood s hs.state a ha b hb
    exact ensures_of_done hdone ⟨hleaves _ _ _ hdone, fun _ => rfl⟩
  · exact (fueled_sort_compare a b).ensures hgood fun res s' events hdone =>
      ⟨hleaves res s' events hdone, fun h => absurd h hgood⟩

theorem Comparing.swap (h : Comparing rt func r I xs cmp good) (hs : Sorting r I xs s ys) {i j : ℕ}
    (hi : i < ys.length) (hj : j < ys.length) {fails : Prop} :
    Ensures fails (_Swap r i j) s fun _ s' =>
      ∃ zs, Sorting r I xs s' zs ∧ elementAt zs = elementAt ys ∘ Equiv.swap i j := by
  have hstep : ((s.vm.arrays[r]?).bind fun values => (values[i]?).bind fun a => (values[j]?).map
      fun b => ((), s.setArray r ((values.set i b).set j a))) =
      some ((), s.setArray r ((ys.set i ys[j]).set j ys[i])) := by
    rw [hs.array, Option.bind_some, List.getElem?_eq_getElem hi, Option.bind_some,
      List.getElem?_eq_getElem hj]
    rfl
  refine ensures_step hstep ⟨_, ⟨h.leaves.write s _ hs.state,
    List.getElem?_set_self (List.getElem?_eq_some_iff.mp hs.array).1,
    (List.set_set_perm hi hj).trans hs.perm⟩, ?_⟩
  funext k
  rw [Function.comp_apply, elementAt, elementAt, List.getElem?_set, List.length_set]
  by_cases hjk : j = k
  · rw [if_pos hjk, if_pos hj, ← hjk, Equiv.swap_apply_right, List.getElem?_eq_getElem hi]
  · rw [if_neg hjk, List.getElem?_set]
    by_cases hik : i = k
    · rw [if_pos hik, if_pos hi, ← hik, Equiv.swap_apply_left, List.getElem?_eq_getElem hj]
    · rw [if_neg hik, Equiv.swap_apply_of_ne_of_ne (Ne.symm hik) (Ne.symm hjk)]

/-- The order of positions by what is there -/
def Below (xs : List SQObject) (cmp : SQObject → SQObject → ℤ) (x y : Option SQObject) : Prop :=
  ∀ b ∈ y, b ∈ xs → ∃ a ∈ x, a ∈ xs ∧ cmp a b ≤ 0

theorem TotalPreorder.cmp_self (h : TotalPreorder xs cmp) {a : SQObject} (ha : a ∈ xs) :
    cmp a a = 0 := by
  have := h.flip a ha a ha
  omega

theorem TotalPreorder.refl (h : TotalPreorder xs cmp) : Std.Refl (Below xs cmp) :=
  ⟨fun _ b hb hmem => ⟨b, hb, hmem, (h.cmp_self hmem).le⟩⟩

theorem TotalPreorder.isTrans (h : TotalPreorder xs cmp) : IsTrans _ (Below xs cmp) := by
  refine ⟨fun x y z hxy hyz c hc hmem => ?_⟩
  obtain ⟨b, hb, hbmem, hbc⟩ := hyz c hc hmem
  obtain ⟨a, ha, hamem, hab⟩ := hxy b hb hbmem
  exact ⟨a, ha, hamem, h.trans a hamem b hbmem c hmem hab hbc⟩

theorem below_of_le {x y : Option SQObject} {a b : SQObject} (hx : x = some a) (hy : y = some b)
    (ha : a ∈ xs) (hle : cmp a b ≤ 0) : Below xs cmp x y := by
  subst hx hy
  rintro _ ⟨⟩ -
  exact ⟨a, rfl, ha, hle⟩

/-! ## The loops -/

private theorem Comparing.maxChild (h : Comparing rt func r I xs cmp good)
    (hs : Sorting r I xs s ys)
    (hlen : bottom < ys.length) (hle : root * 2 ≤ bottom) :
    Ensures (¬ good) (maxChild rt r func bottom (root * 2)) s fun res s' => Sorting r I xs s' ys ∧
      (good → res.isSome) ∧ ∀ m ∈ res, m / 2 = root ∧ m ≤ bottom ∧
        (good → GreatestChild (Below xs cmp) (elementAt ys) bottom root m) := by
  unfold ArraySort.maxChild
  split
  · next heq =>
    refine ensures_pure ⟨hs, fun _ => rfl, ?_⟩
    rintro _ ⟨⟩
    have hhalf : root * 2 / 2 = root := Nat.mul_div_cancel root two_pos
    refine ⟨hhalf, hle, fun hgood => ⟨hle, hhalf, ?_⟩⟩
    intro c hc hcle hparent
    have hc_eq : c = root * 2 := by omega
    rw [hc_eq]
    exact (h.preorder hgood).refl.refl _
  · next hne =>
    refine (hs.value (by omega) fun a ha hat => ?_).bind
    refine (hs.value (by omega) fun b hb hbt => ?_).bind
    refine ((h.compare hs ha hb).mono fun res s' hres => ?_).bind
    obtain ⟨hs', hcmp⟩ := hres
    cases res with
    | none => exact ensures_pure ⟨hs', fun hgood => (by cases hcmp hgood), nofun⟩
    | some ret =>
      refine ensures_pure ⟨hs', fun _ => rfl, ?_⟩
      rintro m hm
      obtain rfl : (if ret > 0 then root * 2 else root * 2 + 1) = m := Option.some.inj hm
      have hhalf : (if ret > 0 then root * 2 else root * 2 + 1) / 2 = root := by
        split_ifs <;> omega
      have hmle : (if ret > 0 then root * 2 else root * 2 + 1) ≤ bottom := by
        split_ifs <;> omega
      refine ⟨hhalf, hmle, fun hgood => ⟨hmle, hhalf, ?_⟩⟩
      have hrefl := (h.preorder hgood).refl.refl
      have hflip := (h.preorder hgood).flip b hb a ha
      obtain rfl : ret = cmp a b := Option.some.inj (hcmp hgood)
      intro c hc hcle hparent
      obtain rfl | rfl : c = root * 2 ∨ c = root * 2 + 1 := by omega
      · split_ifs with hpos
        · exact hrefl _
        · exact below_of_le hat hbt ha (not_lt.mp hpos)
      · split_ifs with hpos
        · exact below_of_le hbt hat hb (hflip.mpr hpos).le
        · exact hrefl _

/-- What sifting down and the loops around it end with: if the comparison is good, they succeed. -/
def Sorted (r : ℕ) (I : Store → Prop) (xs : List SQObject) (good : Prop)
    (P : (ℕ → Option SQObject) → Prop) (ok : Bool) (s : Store) : Prop :=
  ∃ zs, s.vm.arrays[r]? = some zs ∧ zs.Perm xs ∧ (ok = true → I s) ∧
    (good → ok = true ∧ P (elementAt zs))

theorem Sorting.sorted {P : (ℕ → Option SQObject) → Prop} {ok : Bool} (h : Sorting r I xs s ys)
    (hgood : good → ok = true ∧ P (elementAt ys)) : Sorted r I xs good P ok s :=
  ⟨ys, h.array, h.perm, fun _ => h.state, hgood⟩

theorem Sorting.failed {P : (ℕ → Option SQObject) → Prop} (h : Sorting r I xs s ys)
    (hgood : ¬ good) (harray : s'.vm.arrays = s.vm.arrays) : Sorted r I xs good P false s' :=
  ⟨ys, (congrArg (·[r]?) harray).trans h.array, h.perm, nofun, fun hg => absurd hg hgood⟩

/-- One round of sifting down: the greatest child comes up, or the node is in order. -/
theorem Comparing.sift_down (h : Comparing rt func r I xs cmp good) (hs : Sorting r I xs s ys)
    (hlen : bottom < ys.length) (hfuel : bottom < fuel + root) (hroot : root ≤ bottom)
    (hsink : good → Sinking (Below xs cmp) (elementAt ys) lo bottom root) :
    Ensures (¬ good) (_hsort_sift_down rt r func bottom fuel root) s
      (Sorted r I xs good fun f => Rearranged bottom (elementAt ys) f ∧
        HeapFrom (Below xs cmp) f lo bottom) := by
  induction fuel generalizing s ys root with
  | zero => omega
  | succ fuel ih =>
    unfold _hsort_sift_down
    split
    swap
    · -- A leaf
      refine ensures_pure (hs.sorted fun hgood => ⟨rfl, .refl _ _, (hsink hgood).heapFrom ?_⟩)
      intro c hc hcle hparent
      omega
    · next hle =>
      refine ((h.maxChild hs hlen hle).mono fun res s₁ hres => ?_).bind
      obtain ⟨hs₁, hsome, hm⟩ := hres
      cases res with
      | none => exact ensures_pure (hs₁.failed (fun hgood => by cases hsome hgood) rfl)
      | some m =>
        obtain ⟨hhalf, hmle, hgreatest⟩ := hm m rfl
        refine (hs₁.value (by omega) fun a ha hat => ?_).bind
        refine (hs₁.value (by omega) fun b hb hbt => ?_).bind
        refine ((h.compare hs₁ ha hb).mono fun res s₂ hres => ?_).bind
        obtain ⟨hs₂, hcmp⟩ := hres
        cases res with
        | none => exact ensures_pure (hs₂.failed (fun hgood => by cases hcmp hgood) rfl)
        | some ret =>
          have hret : good → ret = cmp a b := fun hgood => Option.some.inj (hcmp hgood)
          dsimp only
          split
          · next hneg =>
            split
            · next hself =>
              -- A total preorder does not put an element below itself.
              refine Ensures.bind (ensures_modify ?_)
              refine ensures_pure (hs₂.failed (fun hgood => ?_) rfl)
              obtain rfl : a = b := Option.some.inj (hat.symm.trans (hself ▸ hbt))
              have := (h.preorder hgood).cmp_self ha
              have := hret hgood
              omega
            · next hne =>
              refine ((h.swap hs₂ (by omega) (by omega)).mono fun _ s₃ hzs => ?_).bind
              obtain ⟨zs, hs₃, hat₃⟩ := hzs
              have hlen₃ : zs.length = ys.length := hs₃.perm.length_eq.trans hs₂.perm.length_eq.symm
              refine (ih hs₃ (by omega) (by omega) hmle fun hgood => ?_).mono ?_
              · rw [hat₃]
                exact (hsink hgood).swap (hgreatest hgood) hne
                  (below_of_le hat hbt ha ((hret hgood).symm.trans_lt hneg).le)
              · rintro ok s₄ ⟨ws, harray, hperm, hstate, hws⟩
                refine ⟨ws, harray, hperm, hstate, fun hgood => ?_⟩
                obtain ⟨hok, hre, hheap⟩ := hws hgood
                refine ⟨hok, ?_, hheap⟩
                rw [hat₃] at hre
                exact (Rearranged.swap (by omega) hmle _).trans hre
          · next hneg =>
            refine ensures_pure (hs₂.sorted fun hgood => ⟨rfl, .refl _ _, ?_⟩)
            have hflip := (h.preorder hgood).flip a ha b hb
            have hle' : Below xs cmp (elementAt ys m) (elementAt ys root) :=
              below_of_le hbt hat hb (by rw [← hret hgood] at hflip; omega)
            refine (hsink hgood).heapFrom fun c hc hcle hparent => ?_
            exact (h.preorder hgood).isTrans.trans _ _ _
              ((hgreatest hgood).greatest c hc hcle hparent) hle'

theorem Comparing.build (h : Comparing rt func r I xs cmp good) (hs : Sorting r I xs s ys)
    (hlen : bottom < ys.length) (hfuel : bottom < fuel) {i : ℕ} (hi : i ≤ bottom + 1)
    (hheap : good → HeapFrom (Below xs cmp) (elementAt ys) i bottom) :
    Ensures (¬ good) (build rt fuel r func bottom i) s
      (Sorted r I xs good fun f => HeapFrom (Below xs cmp) f 0 bottom) := by
  induction i generalizing s ys with
  | zero => exact ensures_pure (hs.sorted fun hgood => ⟨rfl, hheap hgood⟩)
  | succ i ih =>
    refine ((h.sift_down hs hlen (by omega) (by omega) fun hgood =>
      (hheap hgood).sinking).mono fun ok s₁ hok => ?_).bind
    obtain ⟨zs, harray, hperm, hstate, hzs⟩ := hok
    cases ok with
    | false =>
      exact ensures_pure ⟨zs, harray, hperm, nofun, fun hgood => by cases (hzs hgood).1⟩
    | true =>
      have hlen₁ : zs.length = ys.length := hperm.length_eq.trans hs.perm.length_eq.symm
      exact ih ⟨hstate rfl, harray, hperm⟩ (by omega) (by omega) fun hgood => (hzs hgood).2.2

private theorem Comparing.extract (h : Comparing rt func r I xs cmp good) {last : ℕ}
    (hs : Sorting r I xs s ys) (hlen : last < xs.length) (hfuel : last ≤ fuel)
    (hheap : good → Extracting (Below xs cmp) (elementAt ys) last xs.length) :
    Ensures (¬ good) (extract rt fuel r func last) s
      (Sorted r I xs good fun f => Extracting (Below xs cmp) f 0 xs.length) := by
  induction last generalizing s ys with
  | zero => exact ensures_pure (hs.sorted fun hgood => ⟨rfl, hheap hgood⟩)
  | succ last ih =>
    have hlen₀ := hs.perm.length_eq
    refine ((h.swap hs (i := 0) (j := last + 1) (by omega) (by omega)).mono
      fun _ s₁ hzs => ?_).bind
    obtain ⟨zs, hs₁, hat₁⟩ := hzs
    have hlen₁ := hs₁.perm.length_eq
    refine ((h.sift_down hs₁ (by omega) (by omega) (Nat.zero_le _) fun hgood =>
      hat₁ ▸ (hheap hgood).sinking).mono fun ok s₂ hok => ?_).bind
    obtain ⟨ws, harray, hperm, hstate, hws⟩ := hok
    cases ok with
    | false =>
      exact ensures_pure ⟨ws, harray, hperm, nofun, fun hgood => by cases (hws hgood).1⟩
    | true =>
      refine ih ⟨hstate rfl, harray, hperm⟩ (by omega) (by omega) fun hgood => ?_
      obtain ⟨-, hre, hheap'⟩ := hws hgood
      have := (h.preorder hgood).refl
      have := (h.preorder hgood).isTrans
      exact (hheap hgood).next (hat₁ ▸ hre) hheap'

private theorem Comparing.hsort (h : Comparing rt func r I xs cmp good) (hs : Sorting r I xs s xs)
    (hlen : 1 < xs.length) (hfuel : xs.length ≤ fuel) :
    Ensures (¬ good) (_hsort rt fuel r func) s
      (Sorted r I xs good fun f => Extracting (Below xs cmp) f 0 xs.length) := by
  refine Ensures.bind (ensures_read ?_)
  have hsize : ((s.vm.arrays[r]?).getD []).length = xs.length := by rw [hs.array, Option.getD_some]
  rw [hsize]
  refine ((h.build hs (by omega) (by omega) (by omega) fun _ =>
    heapFrom_of_lt (by omega)).mono fun ok s₁ hok => ?_).bind
  obtain ⟨zs, harray, hperm, hstate, hzs⟩ := hok
  cases ok with
  | false => exact ensures_pure ⟨zs, harray, hperm, nofun, fun hgood => by cases (hzs hgood).1⟩
  | true =>
    exact h.extract ⟨hstate rfl, harray, hperm⟩ (by omega) (by omega) fun hgood =>
      .start (hzs hgood).2

/-- Every position is below the ones behind it. -/
theorem pairwise_of_extracting {zs : List SQObject} (hperm : zs.Perm xs)
    (h : Extracting (Below xs cmp) (elementAt zs) 0 xs.length) :
    zs.Pairwise fun a b => cmp a b ≤ 0 := by
  rw [List.pairwise_iff_getElem]
  intro i j hi hj hij
  have hbelow := h.all hij (hperm.length_eq ▸ hj) zs[j] (List.getElem?_eq_getElem hj)
    (hperm.mem_iff.mp (List.getElem_mem hj))
  obtain ⟨a, ha, -, hle⟩ := hbelow
  obtain rfl : zs[i] = a := Option.some.inj ((List.getElem?_eq_getElem hi).symm.trans ha)
  exact hle

/-- `array_sort` of an array that holds `xs` -/
theorem Comparing.array_sort {s : Store} (h : Comparing rt (sortFunc s) r I xs cmp good)
    (hself : s.stackGet 1 = some (.array r)) (hs : Sorting r I xs s xs)
    (hfuel : xs.length ≤ fuel) :
    Ensures (¬ good) (array_sort rt fuel) s fun ok s' =>
      ∃ zs, s'.vm.arrays[r]? = some zs ∧ zs.Perm xs ∧
        (good → ok = true ∧ zs.Pairwise fun a b => cmp a b ≤ 0) := by
  have hself' : (s.stackGet 1).map (·, s) = some (.array r, s) := by rw [hself, Option.map_some]
  have hsize : ((s.vm.arrays[r]?).getD []).length = xs.length := by rw [hs.array, Option.getD_some]
  refine (ensures_step hself' ?_).bind
  refine Ensures.bind (ensures_read ?_)
  rw [hsize]
  split
  · next hlen =>
    refine Ensures.bind (ensures_read ?_)
    refine (h.hsort hs hlen hfuel).mono fun ok s' hok => ?_
    obtain ⟨zs, harray, hperm, -, hzs⟩ := hok
    exact ⟨zs, harray, hperm, fun hgood =>
      ⟨(hzs hgood).1, pairwise_of_extracting hperm (hzs hgood).2⟩⟩
  · next hlen =>
    refine ensures_pure ⟨xs, hs.array, hs.perm, fun _ => ⟨rfl, ?_⟩⟩
    rw [List.pairwise_iff_getElem]
    intro i j hi hj hij
    omega

/-- A comparison that does not touch the array leaves a permutation of it, and the loops end. With
one that is a total preorder the sort succeeds, and the elements are in order. -/
theorem array_sort_sorts (hself : s.stackGet 1 = some (.array r))
    (harray : s.vm.arrays[r]? = some xs) (hI : I s) (hleaves : LeavesArray rt (sortFunc s) r I xs)
    (hfuel : xs.length ≤ fuel) :
    array_sort rt fuel s ≠ .outOfFuel ∧
    (∀ ok s' events, array_sort rt fuel s = .done ok s' events →
      ∃ ys, s'.vm.arrays[r]? = some ys ∧ ys.Perm xs) ∧
    ∀ cmp, ComparesAs rt (sortFunc s) I xs cmp → TotalPreorder xs cmp →
      ∃ s' events ys, array_sort rt fuel s = .done true s' events ∧
        s'.vm.arrays[r]? = some ys ∧ ys.Perm xs ∧ ys.Pairwise fun a b => cmp a b ≤ 0 := by
  have hs : Sorting r I xs s xs := ⟨hI, harray, .refl xs⟩
  have hany : Comparing rt (sortFunc s) r I xs (fun _ _ => 0) False := ⟨hleaves, nofun, nofun⟩
  have hsort := hany.array_sort hself hs hfuel
  refine ⟨hsort.fueled, fun ok s' events hdone => ?_, fun cmp hcompares hpreorder => ?_⟩
  · obtain ⟨ys, harray', hperm, -⟩ := hsort.result hdone
    exact ⟨ys, harray', hperm⟩
  · have hgood : Comparing rt (sortFunc s) r I xs cmp True :=
      ⟨hleaves, fun _ => hcompares, fun _ => hpreorder⟩
    obtain ⟨ok, s', events, hdone, ys, harray', hperm, hys⟩ :=
      ((hgood.array_sort hself hs hfuel).mono_fails fun h => h trivial).returns
    obtain ⟨rfl, hpairwise⟩ := hys trivial
    exact ⟨s', events, ys, hdone, harray', hperm, hpairwise⟩

/-! ## Integers -/

/-- `ObjCmp` of two integers -/
def compareIntegers : SQObject → SQObject → ℤ
  | .integer i, .integer j => if i = j then 0 else if i < j then -1 else 1
  | _, _ => 0

theorem compareIntegers_eq (i j : ℤ) : compareIntegers (.integer i) (.integer j) =
    if i = j then 0 else if i < j then -1 else 1 := rfl

private theorem objCmp_integers (i j : ℤ) (s : Store) : objCmp rt (.integer i) (.integer j) s =
    .done (some (compareIntegers (.integer i) (.integer j))) s [] := by
  by_cases hij : i = j
  · subst hij
    have hsame : objCmp rt (.integer i) (.integer i) = pure (some 0) :=
      (if_pos rfl).trans (if_pos rfl)
    rw [hsame, compareIntegers_eq, if_pos rfl]
    rfl
  · have hne : SQObject.integer i ≠ .integer j := fun h => hij (SQObject.data.inj h).2
    have hother : objCmp rt (.integer i) (.integer j) = pure (some (if i < j then -1 else 1)) :=
      (if_pos rfl).trans (if_neg hne)
    rw [hother, compareIntegers_eq, if_neg hij]
    rfl

/-- An array of integers meets the hypotheses without a function. -/
theorem comparing_integers (hxs : ∀ a ∈ xs, ∃ i, a = .integer i) :
    Comparing rt none r (fun _ => True) xs compareIntegers True where
  leaves :=
    { compare := by
        rintro s - a ha b hb res s' events hdone
        obtain ⟨i, rfl⟩ := hxs a ha
        obtain ⟨j, rfl⟩ := hxs b hb
        cases (objCmp_integers i j s).symm.trans hdone
        exact ⟨trivial, rfl⟩
      write := fun _ _ _ => trivial }
  compares _ s _ a ha b hb := by
    obtain ⟨i, rfl⟩ := hxs a ha
    obtain ⟨j, rfl⟩ := hxs b hb
    exact ⟨s, [], objCmp_integers i j s⟩
  preorder _ :=
    { flip := by
        intro a ha b hb
        obtain ⟨i, rfl⟩ := hxs a ha
        obtain ⟨j, rfl⟩ := hxs b hb
        rw [compareIntegers_eq, compareIntegers_eq]
        split_ifs <;> omega
      trans := by
        intro a ha b hb c hc
        obtain ⟨i, rfl⟩ := hxs a ha
        obtain ⟨j, rfl⟩ := hxs b hb
        obtain ⟨k, rfl⟩ := hxs c hc
        rw [compareIntegers_eq, compareIntegers_eq, compareIntegers_eq]
        split_ifs <;> omega }

/-- `[3, 1, 2].sort()` -/
def sortStore : Store :=
  { emptyStore with
    vm :=
      { emptyStore.vm with
        stack := [.array 0]
        top := 1
        arrays := [[.integer 3, .integer 1, .integer 2]] } }

theorem array_sort_sorts_three : ∃ s' events ys,
    array_sort nullRuntime 3 sortStore = .done true s' events ∧ s'.vm.arrays[0]? = some ys ∧
      ys.Perm [.integer 3, .integer 1, .integer 2] ∧
      ys.Pairwise fun a b => compareIntegers a b ≤ 0 := by
  have h : Comparing nullRuntime none 0 (fun _ => True) [.integer 3, .integer 1, .integer 2]
      compareIntegers True := comparing_integers (by simp)
  exact (array_sort_sorts rfl rfl trivial h.leaves le_rfl).2.2 compareIntegers
    (h.compares trivial) (h.preorder trivial)

end ArraySort
end Squirt
