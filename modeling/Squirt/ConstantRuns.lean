import Squirt.GuardedRuns
import Squirt.LoadedConstants

/-!
# Integer constants along an emission

What becomes of the integer constants of a function while its code is emitted: the optimizer merges
their instructions with others, and the increment of a `for` is taken away and added again.
-/

namespace Squirt.Literals

open SQCompiler GuardedRuns Programs

/-- What an instruction was made of: it loads an integer constant; it is the instruction `j` with
the load of a constant into `r` before it; it is `pi` and the load `j` of a constant. -/
inductive Tag (b : Build)
  | other
  | load (v : BitVec b.width)
  | used (v : BitVec b.width) (r : BitVec 8) (j : SQInstruction)
  | double (u : Option (BitVec b.width)) (pi : SQInstruction) (v : BitVec b.width)
    (j : SQInstruction)

namespace Tag

variable {b : Build}

def isOther : Tag b → Bool
  | other => true
  | _ => false

/-- No constant has been merged with the instruction. -/
def isUnmerged : Tag b → Bool
  | other | load _ => true
  | used _ _ _ | double _ _ _ _ => false

/-- The instruction `j` is merged with `pi` before it. -/
def merge (pi j : SQInstruction) : Tag b → Tag b → Tag b
  | load u, load v => double (some u) pi v j
  | load u, other => if j.op = .MOVE then load u else used u pi.arg0 j
  | other, load v => double none pi v j
  | t, other => t
  | _, t => t

/-- The constants of the instruction have survived: it stores its own in its target, and does so in
whatever the optimizer makes of it next; or it does what the instructions do that it is made of. -/
def Survives {W : Type} (ops : Operations W) (literals : List SQObject) (i : SQInstruction) :
    Tag b → Prop
  | other => True
  | load v => Literals.Survives ops literals v i
  | used v r j => ∀ st, execute ops b literals i st =
      executeWith ops b literals (integerObject v) r j st
  | double u pi v j =>
    (∀ st, execute ops b literals i st =
      (execute ops b literals pi st).bind (execute ops b literals j)) ∧
    (∀ u' ∈ u, ∀ st, execute ops b literals pi st = some (st.store pi.arg0 (integerObject u'))) ∧
    ∀ st, execute ops b literals j st = some (st.store j.arg0 (integerObject v))

end Tag

/-- The literals and the code of a function, and the instructions that were popped. Not in the
source is what each instruction was made of. -/
structure TaggedCode (b : Build) where
  pool : Pool
  fs : SQFuncState
  tags : List (Tag b)
  popped : List (SQInstruction × Tag b)

inductive Request (b : Build)
  | loadInt (value : BitVec b.width) (target : ℤ)
  /-- `GetConstant` of another constant -/
  | constant (c : Literal)
  | add (i : SQInstruction)
  /-- an instruction that was popped is added again -/
  | again (n : ℕ)
  | pop (size : ℕ)
  /-- Targets, locals, jumps and other operands change. -/
  | change (fs : SQFuncState)

namespace TaggedCode

variable {b : Build}

def start (fs : SQFuncState) : TaggedCode b := ⟨Pool.init, fs, [], []⟩

/-- `AddInstruction` of an instruction that was made so -/
def addInstruction (e : TaggedCode b) (i : SQInstruction) (tag : Tag b) : TaggedCode b :=
  { e with
    fs := e.fs.addInstruction i
    tags :=
      match e.fs.instructions.getLast? with
      | some pi =>
        if isMerged e.fs i then
          e.tags.dropLast ++ [Tag.merge pi i (e.tags.getLast?.getD .other) tag]
        else e.tags ++ [tag]
      | none => e.tags ++ [tag] }

def popInstructions (e : TaggedCode b) (size : ℕ) : TaggedCode b :=
  { e with
    fs := e.fs.popInstructions size
    tags := e.tags.take (e.fs.instructions.length - size)
    popped := e.popped ++ (e.fs.instructions.zip e.tags).drop (e.fs.instructions.length - size) }

def emitLoadConstInt (H : Hashes) (e : TaggedCode b) (value : BitVec b.width) (target : ℤ) :
    Option (TaggedCode b) :=
  let (fs, target) := loadTarget e.fs target
  match loadConstInt H b value target e.pool with
  | .ok i pool => some (addInstruction { e with pool, fs } i (.load value))
  | .error _ _ => none

def next (H : Hashes) (e : TaggedCode b) : Request b → Option (TaggedCode b)
  | .loadInt value target => e.emitLoadConstInt H value target
  | .constant c =>
    match getConstant H (some c) e.pool with
    | .ok _ pool => some { e with pool }
    | .error _ _ => none
  | .add i => some (e.addInstruction i .other)
  | .again n => (e.popped[n]?).map fun (i, tag) => e.addInstruction i tag
  | .pop size => some (e.popInstructions size)
  | .change fs => some { e with fs }

/-- What the compiler asks for: the operand of a `_OP_LOAD` is the index of a literal, and no
instruction with an integer constant is changed. -/
def Allows (e : TaggedCode b) : Request b → Prop
  | .add i => i.op = .LOAD → 0 ≤ i.arg1
  | .change fs => List.Forall₂
      (fun (i, tag) i' => i' = i ∨ tag.isOther = true ∧ i.op ≠ .LOAD ∧ i'.op ≠ .LOAD)
      (e.fs.instructions.zip e.tags) fs.instructions
  | _ => True

/-- What is added again and merged with the instruction before it is no instruction that an integer
constant has been merged with, but the load of one or an instruction without one. -/
def Harmless (e : TaggedCode b) : Request b → Prop
  | .again n => ∀ i tag, e.popped[n]? = some (i, tag) → isMerged e.fs i = true →
      tag.isUnmerged = true
  | _ => True

/-- The integer constants in the code have survived. -/
def Survive {W : Type} (e : TaggedCode b) (ops : Operations W) (literals : List SQObject) : Prop :=
  List.Forall₂ (fun i tag => Tag.Survives ops literals i tag) e.fs.instructions e.tags

end TaggedCode

/-! ### What the optimizer keeps -/

/-- The instructions that a constant is merged with -/
def mergedOps : List SQOpcode := [.GETK, .PREPCALLK, .APPENDARRAY, .DLOAD, .EQ, .NE]

private theorem fuse_keep {fs : SQFuncState} {pi i pi' i' : SQInstruction}
    (h : fs.fuse pi i = .keep pi' i') :
    (pi' = pi ∨ pi.op = .CALL ∧ pi'.op = .TAILCALL) ∧
      (i' = i ∨ i.op ∈ [.JZ, .SET, .NEWSLOT, .SETOUTER] ∧ i'.op = i.op) := by
  unfold SQFuncState.fuse at h
  split at h
  case h_1 hop =>
    split_ifs at h <;> cases h
    · exact ⟨.inl rfl, .inr ⟨by simp [hop], rfl⟩⟩
    · exact ⟨.inl rfl, .inl rfl⟩
  case h_2 hop | h_3 hop | h_4 hop =>
    split_ifs at h <;> cases h
    · exact ⟨.inl rfl, .inr ⟨by simp [hop], rfl⟩⟩
    · exact ⟨.inl rfl, .inl rfl⟩
  case h_5 hop =>
    split_ifs at h with hcall <;> cases h
    · exact ⟨.inr ⟨hcall.2.2.1, rfl⟩, .inl rfl⟩
    · exact ⟨.inl rfl, .inl rfl⟩
  case h_8 =>
    split at h
    · split_ifs at h
      cases h
      exact ⟨.inl rfl, .inl rfl⟩
    · cases h
      exact ⟨.inl rfl, .inl rfl⟩
  all_goals
    first
    | cases h; exact ⟨.inl rfl, .inl rfl⟩
    | split_ifs at h; cases h; exact ⟨.inl rfl, .inl rfl⟩

/-- An instruction that a constant was merged with is not merged with the next one. -/
theorem fuse_ne_merge {fs : SQFuncState} {pi i m : SQInstruction} {opt : Bool}
    (hpi : pi.op ∈ mergedOps) : fs.fuse pi i ≠ .merge m opt := by
  intro h
  simp only [mergedOps, List.mem_cons, List.not_mem_nil, or_false] at hpi
  unfold SQFuncState.fuse at h
  rcases hpi with hpi | hpi | hpi | hpi | hpi | hpi <;>
    · simp only [hpi, appendArrayType] at h
      split at h <;> simp at h <;> split_ifs at h

/-- What is left of a load that was merged with the next instruction -/
theorem fuse_merge_of_load {fs : SQFuncState} {pi i m : SQInstruction} {opt : Bool}
    (h : fs.fuse pi i = .merge m opt) (hpi : pi.op = .LOADINT ∨ pi.op = .LOAD) :
    i.op = .MOVE ∧ m = { pi with arg0 := i.arg0 } ∨ i.op ≠ .MOVE ∧ m.op ∈ mergedOps := by
  unfold SQFuncState.fuse at h
  split at h
  case h_1 =>
    split_ifs at h with hcmp
    rcases hpi with hpi | hpi <;> simp [hpi] at hcmp
  case h_5 =>
    split_ifs at h with _ hclose
    rcases hpi with hpi | hpi <;> simp [hpi] at hclose
  case h_8 hop =>
    split at h
    · split_ifs at h
      cases h
      exact .inr ⟨by simp [hop], by simp [mergedOps]⟩
    · cases h
  case h_9 hop =>
    split_ifs at h with hmove hmove'
    · cases h
      exact .inl ⟨hop, rfl⟩
    · rcases hpi with hpi | hpi <;> simp [hpi] at hmove'
  case h_6 hop | h_7 hop | h_10 hop | h_11 hop | h_12 hop =>
    split_ifs at h
    cases h
    exact .inr ⟨by simp [hop], by simp [mergedOps, hop]⟩
  case h_13 =>
    split_ifs at h with hnulls
    rcases hpi with hpi | hpi <;> simp [hpi] at hnulls
  case h_14 =>
    split_ifs at h with hline
    rcases hpi with hpi | hpi <;> simp [hpi] at hline
  case h_15 => cases h
  all_goals split_ifs at h

/-- A load is merged with the instruction before it only to `_OP_DLOAD`. -/
theorem fuse_merge_load {fs : SQFuncState} {pi i m : SQInstruction} {opt : Bool}
    (h : fs.fuse pi i = .merge m opt) (hi : i.op = .LOADINT ∨ i.op = .LOAD) :
    m.op = .DLOAD := by
  unfold SQFuncState.fuse at h
  rcases hi with hi | hi <;> simp only [hi] at h
  · cases h
  · split_ifs at h
    cases h
    rfl

/-- A `_OP_LOAD` that is left of two instructions has the literal of the first one. -/
theorem fuse_merge_to_load {fs : SQFuncState} {pi i m : SQInstruction} {opt : Bool}
    (h : fs.fuse pi i = .merge m opt) (hm : m.op = .LOAD) : pi.op = .LOAD ∧ m.arg1 = pi.arg1 := by
  unfold SQFuncState.fuse at h
  split at h
  case h_5 hop =>
    split_ifs at h
    cases h
    rw [hop] at hm
    cases hm
  case h_8 =>
    split at h
    · split_ifs at h
      cases h
      cases hm
    · cases h
  case h_9 =>
    split_ifs at h <;> cases h
    · exact ⟨hm, rfl⟩
    · cases hm
  case h_11 hop | h_12 hop | h_14 hop =>
    split_ifs at h
    cases h
    rw [hop] at hm
    cases hm
  case h_13 =>
    split_ifs at h with hnulls
    cases h
    rw [show pi.op = .LOAD from hm] at hnulls
    cases hnulls.1
  case h_1 | h_6 | h_7 | h_10 =>
    split_ifs at h
    cases h
    cases hm
  case h_15 => cases h
  all_goals split_ifs at h

/-! ### The constants of the code -/

/-- An instruction has been made as its tag says. -/
inductive Carrier {b : Build} (literals : List SQObject) : SQInstruction → Tag b → Prop
  | other {i : SQInstruction} (hi : i.op = .LOAD → 0 ≤ i.arg1) : Carrier literals i .other
  | load {i : SQInstruction} {v : BitVec b.width} (hi : Loads literals v i) :
    Carrier literals i (.load v)
  | used {i i₀ j : SQInstruction} {v : BitVec b.width} {fs : SQFuncState} {opt : Bool}
    (hload : Loads literals v i₀) (hfuse : fs.fuse i₀ j = .merge i opt)
    (hj : j.op = .LOAD → 0 ≤ j.arg1) (hop : i.op ∈ mergedOps) :
    Carrier literals i (.used v i₀.arg0 j)
  | double {i pi j : SQInstruction} {u : Option (BitVec b.width)} {v : BitVec b.width}
    {fs : SQFuncState} {opt : Bool} (hpi : ∀ u' ∈ u, Loads literals u' pi)
    (hj : Loads literals v j) (hfuse : fs.fuse pi j = .merge i opt) (hop : i.op = .DLOAD) :
    Carrier literals i (.double u pi v j)

section Carrier

variable {W : Type} {ops : Operations W} {b : Build} {literals literals' : List SQObject}
  {i pi m : SQInstruction} {tag pitag : Tag b}

private theorem literal_mono (hpre : literals <+: literals') {k : ℤ} {o : SQObject}
    (h : literal literals k = some o) : literal literals' k = some o := by
  unfold literal at h ⊢
  split_ifs at h ⊢
  obtain ⟨rest, rfl⟩ := hpre
  exact (List.getElem?_append_left (List.getElem?_eq_some_iff.mp h).1).trans h

theorem Loads.mono {v : BitVec b.width} (h : Loads literals v i) (hpre : literals <+: literals') :
    Loads literals' v i := by
  cases h with
  | int hop harg => exact .int hop harg
  | pooled hop hpos harg => exact .pooled hop hpos (literal_mono hpre harg)

/-- More literals may follow. -/
theorem Carrier.mono (h : Carrier literals i tag) (hpre : literals <+: literals') :
    Carrier literals' i tag := by
  cases h with
  | other hi => exact .other hi
  | load hi => exact .load (hi.mono hpre)
  | used hload hfuse hj hop => exact .used (hload.mono hpre) hfuse hj hop
  | double hpi hj hfuse hop =>
    exact .double (fun u hu => (hpi u hu).mono hpre) (hj.mono hpre) hfuse hop

theorem Loads.survives {v : BitVec b.width} (h : Loads literals v i) :
    Survives ops literals v i :=
  ⟨h.execute, h.carries, h.carriesAfter⟩

theorem Carrier.survives (h : Carrier literals i tag) : tag.Survives ops literals i := by
  cases h with
  | other => trivial
  | load hi => exact hi.survives
  | @used i₀ j v fs opt hload hfuse hj =>
    have hcarries : Carries ops literals v i₀ j (fs.fuse i₀ j) := hload.carries fs j hj
    rw [hfuse] at hcarries
    exact hcarries
  | @double pi j u v fs opt hpi hj hfuse =>
    have hcarries : CarriesAfter ops b literals pi j (fs.fuse pi j) := hj.carriesAfter fs pi
    rw [hfuse] at hcarries
    exact ⟨hcarries, fun u' hu' => (hpi u' hu').execute, hj.execute⟩

theorem Carrier.op (h : Carrier literals i tag) (htag : tag.isOther = false) :
    (i.op = .LOADINT ∨ i.op = .LOAD) ∨ i.op ∈ mergedOps := by
  cases h with
  | other => cases htag
  | load hi => exact .inl hi.op
  | used _ _ _ hop => exact .inr hop
  | double _ _ _ hop => exact .inr (by simp [mergedOps, hop])

/-- An instruction stays as it is, or has no constant. -/
theorem Carrier.congr {i' : SQInstruction} (h : Carrier literals i tag)
    (hi : i' = i ∨ tag.isOther = true ∧ i'.op ≠ .LOAD) : Carrier literals i' tag := by
  obtain rfl | ⟨htag, hop⟩ := hi
  · exact h
  · cases h with
    | other => exact .other fun hload => absurd hload hop
    | load | used | double => cases htag

private theorem Carrier.isOther_of_op (h : Carrier literals i tag) (hop : i.op ∉ mergedOps)
    (hload : i.op ≠ .LOAD) (hloadint : i.op ≠ .LOADINT) : tag.isOther = true := by
  by_contra htag
  obtain (hi | hi) | hi := h.op (Bool.eq_false_iff.mpr htag)
  · exact hloadint hi
  · exact hload hi
  · exact hop hi

/-- `AddInstruction` does not merge the instructions. -/
theorem Carrier.keep {fs : SQFuncState} {pi' i' : SQInstruction}
    (h : fs.fuse pi i = .keep pi' i') (hpi : Carrier literals pi pitag)
    (hi : Carrier literals i tag) : Carrier literals pi' pitag ∧ Carrier literals i' tag := by
  obtain ⟨hpi', hi'⟩ := fuse_keep h
  constructor
  · obtain rfl | ⟨hcall, htailcall⟩ := hpi'
    · exact hpi
    · refine hpi.congr (.inr ⟨hpi.isOther_of_op ?_ ?_ ?_, ?_⟩)
      · simp [hcall, mergedOps]
      · simp [hcall]
      · simp [hcall]
      · simp [htailcall]
  · obtain rfl | ⟨hop, hsame⟩ := hi'
    · exact hi
    · simp only [List.mem_cons, List.not_mem_nil, or_false] at hop
      refine hi.congr (.inr ⟨hi.isOther_of_op ?_ ?_ ?_, ?_⟩)
      · rcases hop with hop | hop | hop | hop <;> simp [hop, mergedOps]
      · rcases hop with hop | hop | hop | hop <;> simp [hop]
      · rcases hop with hop | hop | hop | hop <;> simp [hop]
      · rw [hsame]
        rcases hop with hop | hop | hop | hop <;> simp [hop]

/-- `AddInstruction` merges the instructions, and no constant has been merged with the second one
yet. -/
theorem Carrier.merge {fs : SQFuncState} {opt : Bool} (h : fs.fuse pi i = .merge m opt)
    (hpi : Carrier literals pi pitag) (hi : Carrier literals i tag)
    (hharmless : tag.isUnmerged = true) :
    Carrier literals m (Tag.merge pi i pitag tag) := by
  cases hpi with
  | used _ _ _ hop => exact absurd h (fuse_ne_merge hop)
  | double _ _ _ hop => exact absurd h (fuse_ne_merge (by simp [mergedOps, hop]))
  | other hpos =>
    cases hi with
    | used | double => cases hharmless
    | other =>
      refine .other fun hm => ?_
      obtain ⟨hload, harg⟩ := fuse_merge_to_load h hm
      rw [harg]
      exact hpos hload
    | load hj => exact .double nofun hj h (fuse_merge_load h hj.op)
  | load hu =>
    cases hi with
    | used | double => cases hharmless
    | load hj =>
      refine .double ?_ hj h (fuse_merge_load h hj.op)
      rintro u' hu'
      cases hu'
      exact hu
    | other hpos =>
      obtain ⟨hmove, rfl⟩ | ⟨hmove, hop⟩ := fuse_merge_of_load h hu.op
      · rw [Tag.merge, if_pos hmove]
        exact .load (hu.move i.arg0)
      · rw [Tag.merge, if_neg hmove]
        exact .used hu h hpos hop

end Carrier

/-! ### Runs -/

/-- The literals hold the constants `cs`, and the instructions have been made as their tags say. -/
structure TaggedCode.Sound {b : Build} (H : Hashes) (e : TaggedCode b) (cs : List Literal) :
    Prop where
  held : e.pool.Holds H cs
  bound : (cs.length : ℤ) ≤ MAX_LITERALS
  code : List.Forall₂ (Carrier (cs.map some)) e.fs.instructions e.tags
  popped : ∀ i tag, (i, tag) ∈ e.popped → Carrier (cs.map some) i tag

section Sound

variable {H : Hashes} {b : Build} {e : TaggedCode b} {cs : List Literal} (h : e.Sound H cs)

include h

/-- The literals grow. -/
theorem TaggedCode.Sound.grow {pool : Pool} {cs' : List Literal} (hheld : pool.Holds H cs')
    (hpre : cs <+: cs') (hbound : (cs'.length : ℤ) ≤ MAX_LITERALS) :
    TaggedCode.Sound H { e with pool } cs' := by
  have hmap : cs.map some <+: cs'.map some := hpre.map some
  exact ⟨hheld, hbound, h.code.imp fun _ _ hi => hi.mono hmap,
    fun i tag hmem => (h.popped i tag hmem).mono hmap⟩

theorem TaggedCode.Sound.addInstruction {i : SQInstruction} {tag : Tag b}
    (hi : Carrier (cs.map some) i tag)
    (hharmless : isMerged e.fs i = true → tag.isUnmerged = true) :
    (e.addInstruction i tag).Sound H cs := by
  refine ⟨h.held, h.bound, ?_, h.popped⟩
  have hcode := h.code
  dsimp only [TaggedCode.addInstruction]
  rw [isMerged] at hharmless ⊢
  rw [SQFuncState.addInstruction]
  cases hlast : e.fs.instructions.getLast? with
  | none => exact List.rel_append hcode (.cons hi .nil)
  | some pi =>
    rw [hlast] at hharmless
    have hsplit : e.fs.instructions = e.fs.instructions.dropLast ++ [pi] :=
      (List.dropLast_append_getLast? pi hlast).symm
    have hlasttag := hcode
    rw [hsplit] at hlasttag
    obtain ⟨pre, pitag, htags, hpre, hpi⟩ := forall₂_concat hlasttag
    by_cases hopt : e.fs.fusion = true ∧ e.fs.optimization = true
    · simp only [hopt, and_self, if_true, Bool.true_and] at hharmless ⊢
      cases hfuse : e.fs.fuse pi i with
      | merge m opt =>
        rw [hfuse] at hharmless
        simp only [if_true, htags, List.dropLast_concat, List.getLast?_concat, Option.getD_some]
        exact List.rel_append hpre (.cons (hpi.merge hfuse hi (hharmless rfl)) .nil)
      | keep pi' i' =>
        obtain ⟨hpi', hi'⟩ := hpi.keep hfuse hi
        simp only [Bool.false_eq_true, if_false, htags, List.append_assoc, List.singleton_append]
        exact List.rel_append hpre (.cons hpi' (.cons hi' .nil))
    · have hflag : (e.fs.fusion && e.fs.optimization) = false := by
        rw [Bool.eq_false_iff, ne_eq, Bool.and_eq_true]
        exact hopt
      simp only [if_neg hopt, hflag, Bool.false_and, Bool.false_eq_true, if_false]
      exact List.rel_append hcode (.cons hi .nil)

theorem TaggedCode.Sound.popInstructions (size : ℕ) : (e.popInstructions size).Sound H cs := by
  have htake := List.forall₂_take (e.fs.instructions.length - size) h.code
  refine ⟨h.held, h.bound, htake, fun i tag hmem => ?_⟩
  obtain hold | hnew := List.mem_append.mp hmem
  · exact h.popped i tag hold
  · obtain ⟨n, hn⟩ := List.mem_iff_getElem?.mp (List.mem_of_mem_drop hnew)
    obtain ⟨hi, htag⟩ := List.getElem?_zip_eq_some.mp hn
    exact forall₂_getElem? h.code hi htag

theorem TaggedCode.Sound.change {fs : SQFuncState} (hfs : e.Allows (.change fs)) :
    TaggedCode.Sound H { e with fs } cs := by
  refine ⟨h.held, h.bound, ?_, h.popped⟩
  have hcode := h.code
  unfold TaggedCode.Allows at hfs
  dsimp only at hfs ⊢
  generalize e.fs.instructions = l at hcode hfs
  generalize e.tags = tags at hcode hfs
  generalize fs.instructions = l' at hfs
  induction hcode generalizing l' with
  | nil =>
    cases hfs
    exact .nil
  | cons hi _ ih =>
    cases hfs with
    | cons hsame hrest => exact .cons (hi.congr (hsame.imp_right fun h => ⟨h.1, h.2.2⟩)) (ih _ hrest)

theorem TaggedCode.Sound.next {r : Request b} {e' : TaggedCode b}
    (hallows : e.Allows r) (hharmless : e.Harmless r) (hnext : TaggedCode.next H e r = some e') :
    ∃ cs', e'.Sound H cs' := by
  cases r with
  | loadInt value target =>
    simp only [TaggedCode.next, TaggedCode.emitLoadConstInt] at hnext
    split at hnext
    · rename_i i pool hload
      cases hnext
      obtain ⟨cs', hheld, hpre, hbound, hi⟩ := loads_loadConstInt h.held h.bound hload
      have hgrown := h.grow hheld hpre hbound
      have htarget : (loadTarget e.fs target).1.instructions = e.fs.instructions := by
        unfold loadTarget
        split_ifs
        · rfl
        · rfl
      have hloaded : TaggedCode.Sound H { e with pool, fs := (loadTarget e.fs target).1 } cs' := by
        refine ⟨hheld, hbound, ?_, hgrown.popped⟩
        rw [htarget]
        exact hgrown.code
      exact ⟨cs', hloaded.addInstruction (.load hi) fun _ => rfl⟩
    · cases hnext
  | constant c =>
    simp only [TaggedCode.next] at hnext
    split at hnext
    · rename_i k pool hconst
      cases hnext
      obtain ⟨cs', hheld, hpre, hbound, -⟩ := h.held.of_getConstant hconst
      exact ⟨cs', h.grow hheld hpre (hbound h.bound)⟩
    · cases hnext
  | add i =>
    cases hnext
    exact ⟨cs, h.addInstruction (.other hallows) fun _ => rfl⟩
  | again n =>
    obtain ⟨⟨i, tag⟩, hpopped, rfl⟩ := Option.map_eq_some_iff.mp hnext
    exact ⟨cs, h.addInstruction (h.popped i tag (List.mem_of_getElem? hpopped))
      (hharmless i tag hpopped)⟩
  | pop size =>
    cases hnext
    exact ⟨cs, h.popInstructions size⟩
  | change fs =>
    cases hnext
    exact ⟨cs, h.change hallows⟩

private theorem TaggedCode.Sound.survive {W : Type} (ops : Operations W) {literals : List SQObject}
    (hproto : e.pool.buildProto = some literals) : e.Survive ops literals := by
  rw [h.held.buildProto] at hproto
  cases hproto
  exact h.code.imp fun _ _ hi => hi.survives

end Sound

/-- A function without code -/
def noCode : SQFuncState :=
  ⟨true, false, false, [], true, 0, 0, [], [], 0, 0, 0, [], [], [], [], []⟩

/-- A machine that compares objects and whose `Get` gives the key -/
def comparing : Operations Unit where
  get st _ key _ := some (key, st)
  isEqual st o o' := some (decide (o = o'), st)
  append st array val := st.store 0 (if array = none then val else array)
  others _ st := some st

/-- Negative constants, which become literals of `_OP_GETK`, `_OP_EQ` and `_OP_DLOAD`, and a small
one that is appended to an array; the `_OP_DLOAD` is taken away and added again. -/
def mergedConstants64 : List (Request .sq64) :=
  [.constant ⟨.string, 8⟩, .loadInt (-1) 3, .add (.ofArgs none .GET 2 1 3 0),
    .loadInt (-1) 3, .add (.ofArgs none .EQ 2 3 1 0),
    .loadInt 7 3, .add (.ofArgs none .APPENDARRAY 2 3 0 0),
    .loadInt (-2) 3, .loadInt (-1) 4, .pop 1, .again 0]

private theorem guarded_mergedConstants64 :
    Guarded (TaggedCode.next ⟨id, id, id⟩) (fun e r => e.Allows r ∧ e.Harmless r)
      (.start noCode) mergedConstants64 := by
  refine .cons ⟨trivial, trivial⟩ rfl <| .cons ⟨trivial, trivial⟩ rfl <|
    .cons ⟨nofun, trivial⟩ rfl <| .cons ⟨trivial, trivial⟩ rfl <| .cons ⟨nofun, trivial⟩ rfl <|
    .cons ⟨trivial, trivial⟩ rfl <| .cons ⟨nofun, trivial⟩ rfl <|
    .cons ⟨trivial, trivial⟩ rfl <| .cons ⟨trivial, trivial⟩ rfl <|
    .cons ⟨trivial, trivial⟩ rfl <| .cons ⟨trivial, ?_⟩ rfl trivial
  rintro i tag hpopped hmerged
  cases hpopped
  cases hmerged

/-- The increment `x = (c ? y : "s") == 0x1FFFFFFFF` of a `for`, from the string on, after four
other strings, and what is added again of it. -/
def comparedIncrement : List (Request .sq64) :=
  [.constant ⟨.string, 8⟩, .constant ⟨.string, 16⟩, .constant ⟨.string, 24⟩,
    .constant ⟨.string, 32⟩, .constant ⟨.string, 40⟩, .add (.ofArgs none .LOAD 6 4 0 0),
    .add (.ofArgs none .MOVE 5 6 0 0), .loadInt 0x1FFFFFFFF 6, .add (.ofArgs none .EQ 5 6 5 0),
    .pop 2, .again 0, .again 1]

end Squirt.Literals
