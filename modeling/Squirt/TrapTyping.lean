import Squirt.TrapPaths
import Squirt.EmissionSteps

/-!
# Typing the code that is being emitted

What holds of a function under compilation: its code so far is typed, but for the jumps that
wait for their target. Expressions are emitted with the same traps throughout.
-/

namespace Squirt.SQCompiler

variable {fs fs' fs'' : SQFuncState} {tags tags' tags'' : Tags} {T T' Tb Tc : List ℕ}
  {P : List ℤ} {n : ℕ} {i : SQInstruction} {code : List SQInstruction}

theorem Tags.get_of_prefix (h : tags <+: tags') (hn : tags[n]? = some T) :
    tags'[n]? = some T := by
  obtain ⟨ext, rfl⟩ := h
  exact (List.getElem?_append_left (List.getElem?_eq_some_iff.mp hn).1).trans hn

theorem Tags.At.mono {pos : ℤ} (h : tags <+: tags') (hat : tags.At pos T) : tags'.At pos T := by
  obtain ⟨m, hm, hT⟩ := hat
  exact ⟨m, hm, Tags.get_of_prefix h hT⟩

theorem Tags.Falls.mono (h : tags <+: tags') (hfalls : tags.Falls n i T) :
    tags'.Falls n i T := by
  unfold Tags.Falls at *
  split at hfalls
  · trivial
  · trivial
  · exact hfalls
  · exact ⟨hfalls.1, Tags.get_of_prefix h hfalls.2⟩
  · exact Tags.get_of_prefix h hfalls
  · exact ⟨hfalls.1, Tags.get_of_prefix h hfalls.2⟩
  · exact Tags.get_of_prefix h hfalls

theorem Tags.Jumps.mono (h : tags <+: tags') (hjumps : tags.Jumps n i T) :
    tags'.Jumps n i T := by
  unfold Tags.Jumps at *
  split at hjumps
  all_goals first
    | exact Tags.At.mono h hjumps
    | exact ⟨Tags.get_of_prefix h hjumps.1, Tags.At.mono h hjumps.2⟩
    | trivial

theorem Tags.Noted.mono {note : Note} (h : tags <+: tags') (hnote : tags.Noted note) :
    tags'.Noted note := by
  cases note with
  | statement pos tries =>
    obtain ⟨T, hT, hlen⟩ := hnote
    exact ⟨T, hT.mono h, hlen⟩
  | jump pos tries =>
    obtain ⟨T, hT, hlen⟩ := hnote
    exact ⟨T, hT.mono h, hlen⟩
  | increment => trivial

/-- A jump among instructions with the same traps, or a plain instruction. -/
theorem Tags.falls_of_inside {b e : ℕ} (h : Inside b e n i) (hT : tags[n + 1]? = some T) :
    tags.Falls n i T := by
  revert h
  unfold Inside Tags.Falls
  rcases i with ⟨op, _, _, _, _, _⟩
  cases op <;> simp [SQOpcode.isPlain, hT]

private theorem Tags.jumps_of_inside {b e : ℕ} (h : Inside b e n i)
    (hT : ∀ t, b ≤ t → t ≤ e → tags[t]? = some T) : tags.Jumps n i T := by
  rcases h with hplain | ⟨hop, t, ht, hb, he⟩
  · unfold Tags.Jumps
    revert hplain
    rcases i with ⟨op, _, _, _, _, _⟩
    cases op <;> simp [SQOpcode.isPlain]
  · have hat : tags.At (n + 1 + i.arg1) T := ⟨t, ht, hT t hb he⟩
    unfold Tags.Jumps
    revert hop hat
    rcases i with ⟨op, _, _, _, _, _⟩
    cases op <;> simp

/-- `fs` is a function under compilation, with the traps `T` after its code so far. The jumps at
the positions of `P` and the unresolved ones have no target yet. -/
structure Invariant (fs : SQFuncState) (tags : Tags) (T : List ℕ) (P : List ℤ) : Prop where
  typed : Typed fs.instructions tags (P ++ (fs.unresolvedbreaks ++ fs.unresolvedcontinues))
  last : tags[fs.instructions.length]? = some T
  noted : ∀ note ∈ fs.notes, tags.Noted note
  jumps : JumpsNoted fs.instructions fs.notes

/-- The unresolved jump at `pos`, after position `b`, leaves with the traps `T`. -/
def LeavesAt (b : ℕ) (code : List SQInstruction) (tags : Tags) (pos : ℤ) (T : List ℕ) : Prop :=
  ∃ n i, pos = (n : ℕ) ∧ b ≤ n ∧ code[n]? = some i ∧ i.op = .JMP ∧ tags[n]? = some T

/-- Code is added, and of the code before only plain instructions are changed. -/
structure Extends (fs fs' : SQFuncState) (tags tags' : Tags) : Prop where
  tags : tags <+: tags'
  le : fs.instructions.length ≤ fs'.instructions.length
  code : ∀ (n : ℕ) i, fs.instructions[n]? = some i → i.op.isPlain = false →
    fs'.instructions[n]? = some i

/-- What compiling a statement does: the new unresolved jumps leave with the traps `Tb` and
`Tc`. -/
structure Compiled (fs fs' : SQFuncState) (tags tags' : Tags) (Tb Tc : List ℕ) : Prop
    extends Extends fs fs' tags tags' where
  breaks : ∃ bs, fs'.unresolvedbreaks = bs ++ fs.unresolvedbreaks ∧
    ∀ pos ∈ bs, LeavesAt fs.instructions.length fs'.instructions tags' pos Tb
  continues : ∃ cs, fs'.unresolvedcontinues = cs ++ fs.unresolvedcontinues ∧
    ∀ pos ∈ cs, LeavesAt fs.instructions.length fs'.instructions tags' pos Tc

theorem LeavesAt.mono {b b' : ℕ} {code' : List SQInstruction} {pos : ℤ}
    (h : LeavesAt b code tags pos T) (htags : tags <+: tags') (hb : b' ≤ b)
    (hcode : ∀ (n : ℕ) i, code[n]? = some i → i.op.isPlain = false → code'[n]? = some i) :
    LeavesAt b' code' tags' pos T := by
  obtain ⟨n, i, hn, hle, hi, hop, hT⟩ := h
  exact ⟨n, i, hn, hb.trans hle, hcode n i hi (by rw [hop]; rfl), hop,
    Tags.get_of_prefix htags hT⟩

theorem Extends.trans (h : Extends fs fs' tags tags') (h' : Extends fs' fs'' tags' tags'') :
    Extends fs fs'' tags tags'' :=
  ⟨h.tags.trans h'.tags, h.le.trans h'.le,
    fun n i hi hop => h'.code n i (h.code n i hi hop) hop⟩

theorem Compiled.refl : Compiled fs fs tags tags Tb Tc :=
  ⟨⟨List.prefix_rfl, le_rfl, fun _ _ h _ => h⟩, ⟨[], .refl _, by simp⟩, ⟨[], .refl _, by simp⟩⟩

theorem Compiled.trans (h : Compiled fs fs' tags tags' Tb Tc)
    (h' : Compiled fs' fs'' tags' tags'' Tb Tc) : Compiled fs fs'' tags tags'' Tb Tc := by
  obtain ⟨bs, hbs, hb⟩ := h.breaks
  obtain ⟨bs', hbs', hb'⟩ := h'.breaks
  obtain ⟨cs, hcs, hc⟩ := h.continues
  obtain ⟨cs', hcs', hc'⟩ := h'.continues
  have hkeep : ∀ (n : ℕ) i, fs''.instructions[n]? = some i → i.op.isPlain = false →
      fs''.instructions[n]? = some i := fun _ _ hi _ => hi
  refine ⟨h.toExtends.trans h'.toExtends, ⟨bs' ++ bs, by rw [hbs', hbs, List.append_assoc], fun pos hpos => ?_⟩,
    ⟨cs' ++ cs, by rw [hcs', hcs, List.append_assoc], fun pos hpos => ?_⟩⟩
  · rcases List.mem_append.mp hpos with hpos | hpos
    · exact (hb' pos hpos).mono List.prefix_rfl h.le hkeep
    · exact (hb pos hpos).mono h'.tags le_rfl h'.code
  · rcases List.mem_append.mp hpos with hpos | hpos
    · exact (hc' pos hpos).mono List.prefix_rfl h.le hkeep
    · exact (hc pos hpos).mono h'.tags le_rfl h'.code

/-- A step that is not about unresolved jumps. -/
theorem Steady.compiled (h : Steady fs fs') (htags : tags <+: tags')
    (hle : fs.instructions.length ≤ fs'.instructions.length)
    (hcode : ∀ (n : ℕ) i, fs.instructions[n]? = some i → i.op.isPlain = false →
      fs'.instructions[n]? = some i) : Compiled fs fs' tags tags' Tb Tc :=
  ⟨⟨htags, hle, hcode⟩, ⟨[], h.unresolvedbreaks, by simp⟩, ⟨[], h.unresolvedcontinues, by simp⟩⟩

theorem JumpsNoted.mono {notes : List Note} {code' : List SQInstruction}
    (h : JumpsNoted code notes)
    (hcode : ∀ (n : ℕ) i, code[n]? = some i → i.op.isPlain = false →
      ∃ j, code'[n]? = some j ∧ j.op = i.op) : JumpsNoted code' notes := by
  intro pos tries hnote
  obtain ⟨i, hi, hop⟩ := h pos tries hnote
  obtain ⟨n, rfl, hn⟩ := fetch_eq_some hi
  obtain ⟨j, hj, hopj⟩ := hcode n i hn (by rw [hop]; rfl)
  exact ⟨j, by simpa [fetch] using hj, hopj.trans hop⟩

section Region

variable {base : List SQInstruction}

/-- The traps are the same from `base` on. -/
theorem Invariant.tags_start (h : Invariant fs tags T P) (hstart : Start base fs)
    (hb : base.length ≤ n) (hn : n ≤ fs.instructions.length) : tags[n]? = some T := by
  rcases hstart with rfl | ⟨pi, hcode, hpi⟩
  · obtain rfl : n = fs.instructions.length := by omega
    exact h.last
  · have hlen : fs.instructions.length = base.length + 1 := by simp [hcode]
    rcases Nat.eq_or_lt_of_le hb with rfl | hlt
    · have hget : fs.instructions[base.length]? = some pi := by simp [hcode]
      have htag : base.length < tags.length := by
        rw [h.typed.length]
        omega
      have hfalls := h.typed.falls base.length pi _ hget (List.getElem?_eq_getElem htag)
      have hnext : tags[base.length + 1]? = some tags[base.length] := by
        revert hfalls hpi
        unfold Tags.Falls
        rcases pi with ⟨op, _, _, _, _, _⟩
        cases op <;> simp [SQOpcode.isPlain]
      rw [← hlen, h.last] at hnext
      rw [List.getElem?_eq_getElem htag, hnext]
    · obtain rfl : n = fs.instructions.length := by omega
      exact h.last

/-- Expressions are typed with the traps they begin with. -/
theorem Invariant.emits (h : Invariant fs tags T P) (hstart : Start base fs)
    (hlocal : Local base fs') (hle : fs.instructions.length ≤ fs'.instructions.length)
    (hsteady : Steady fs fs') :
    ∃ tags', Invariant fs' tags' T P ∧ ∀ Tb Tc, Compiled fs fs' tags tags' Tb Tc := by
  obtain ⟨k, hk⟩ := Nat.exists_eq_add_of_le hle
  obtain ⟨tags', htags'⟩ : ∃ tags', tags' = tags ++ List.replicate k T := ⟨_, rfl⟩
  have hpre : tags <+: tags' := ⟨_, htags'.symm⟩
  have hlen := h.typed.length
  have hlen' : tags'.length = fs'.instructions.length + 1 := by simp [htags', hlen, hk]; omega
  have hold : ∀ m, base.length ≤ m → m ≤ fs'.instructions.length → tags'[m]? = some T := by
    intro m hm hm'
    rcases Nat.lt_or_ge fs.instructions.length m with hlt | hge
    · rw [htags', List.getElem?_append_right (by omega), List.getElem?_replicate,
        if_pos (by omega)]
    · exact Tags.get_of_prefix hpre (h.tags_start hstart hm hge)
  obtain ⟨l, hcode', -⟩ := hlocal.code
  -- the code before `base` is the same
  have hbase : ∀ m, m < base.length → fs'.instructions[m]? = fs.instructions[m]? := by
    intro m hm
    rw [hcode', List.getElem?_append_left hm]
    rcases hstart with rfl | ⟨pi, hcode, -⟩
    · rfl
    · rw [hcode, List.getElem?_append_left hm]
  have hnonplain : ∀ (m : ℕ) i, fs.instructions[m]? = some i → i.op.isPlain = false →
      m < base.length := by
    intro m i hi hop
    rcases hstart with rfl | ⟨pi, hcode, hpi⟩
    · exact (List.getElem?_eq_some_iff.mp hi).1
    · by_contra hge
      have hm : m < base.length + 1 := by
        have := (List.getElem?_eq_some_iff.mp hi).1
        simpa [hcode] using this
      obtain rfl : m = base.length := by omega
      rw [hcode, List.getElem?_concat_length] at hi
      cases hi
      rw [hpi] at hop
      cases hop
  have hkeep : ∀ (m : ℕ) i, fs.instructions[m]? = some i → i.op.isPlain = false →
      fs'.instructions[m]? = some i := fun m i hi hop => (hbase m (hnonplain m i hi hop)).trans hi
  have hback : ∀ (m : ℕ) T₁, m < base.length → tags'[m]? = some T₁ → tags[m]? = some T₁ := by
    intro m T₁ hm hT₁
    have hbase' := hstart.le
    rwa [htags', List.getElem?_append_left (by omega)] at hT₁
  refine ⟨tags', ⟨⟨hlen', Tags.get_of_prefix hpre h.typed.first, fun m i T₁ hi hT₁ => ?_,
    fun m i T₁ hi hT₁ hpend => ?_, fun m T₁ hmem => ?_⟩, hold _ ?_ le_rfl,
    fun note hnote => ?_, ?_⟩, fun Tb Tc => hsteady.compiled hpre hle hkeep⟩
  · rcases Nat.lt_or_ge m base.length with hm | hm
    · exact (h.typed.falls m i T₁ ((hbase m hm).symm.trans hi) (hback m T₁ hm hT₁)).mono hpre
    · have hlt := (List.getElem?_eq_some_iff.mp hi).1
      rw [hold m hm hlt.le] at hT₁
      cases hT₁
      exact Tags.falls_of_inside (hlocal.inside m i hm hi) (hold (m + 1) (by omega) hlt)
  · rcases Nat.lt_or_ge m base.length with hm | hm
    · refine (h.typed.jumps m i T₁ ((hbase m hm).symm.trans hi) (hback m T₁ hm hT₁) ?_).mono hpre
      rwa [hsteady.unresolvedbreaks, hsteady.unresolvedcontinues] at hpend
    · have hlt := (List.getElem?_eq_some_iff.mp hi).1
      rw [hold m hm hlt.le] at hT₁
      cases hT₁
      exact Tags.jumps_of_inside (hlocal.inside m i hm hi) hold
  · have hmem' : m :: T₁ ∈ tags := by
      rw [htags'] at hmem
      rcases List.mem_append.mp hmem with hmem | hmem
      · exact hmem
      · rw [List.eq_of_mem_replicate hmem]
        exact List.mem_of_getElem? h.last
    obtain ⟨hT₁, i, hi, hop⟩ := h.typed.stack m T₁ hmem'
    exact ⟨Tags.get_of_prefix hpre hT₁, i, hkeep m i hi (by rw [hop]; rfl), hop⟩
  · exact hlocal.base_le
  · rw [hsteady.notes] at hnote
    exact (h.noted note hnote).mono hpre
  · rw [hsteady.notes]
    exact h.jumps.mono fun m i hi hop => ⟨i, hkeep m i hi hop, rfl⟩

end Region

section Push

/-- The next instruction is added as it is; after it there are the traps `T'`. -/
theorem Invariant.push (h : Invariant fs tags T P) (T' : List ℕ) (P' : List ℤ)
    (hcode : fs'.instructions = fs.instructions ++ [i]) (hsteady : Steady fs fs')
    (hfalls : Tags.Falls (tags ++ [T']) fs.instructions.length i T)
    (hjumps : (fs.instructions.length : ℤ) ∈ P' ∨
      Tags.Jumps (tags ++ [T']) fs.instructions.length i T)
    (hP : ∀ pos ∈ P, pos ∈ P')
    (hT' : T' ∈ tags ∨ i.op = .PUSHTRAP ∧ T' = fs.instructions.length :: T) :
    Invariant fs' (tags ++ [T']) T' P' ∧
      ∀ Tb Tc, Compiled fs fs' tags (tags ++ [T']) Tb Tc := by
  have hpre : tags <+: tags ++ [T'] := ⟨_, rfl⟩
  have hlen := h.typed.length
  have hle : fs.instructions.length ≤ fs'.instructions.length := by simp [hcode]
  have hkeep : ∀ (m : ℕ) j, fs.instructions[m]? = some j → fs'.instructions[m]? = some j := by
    intro m j hj
    rw [hcode, List.getElem?_append_left (List.getElem?_eq_some_iff.mp hj).1, hj]
  -- an instruction is an old one with its old traps, or the new one
  have hcases : ∀ (m : ℕ) j T₁, fs'.instructions[m]? = some j → (tags ++ [T'])[m]? = some T₁ →
      fs.instructions[m]? = some j ∧ tags[m]? = some T₁ ∨
        m = fs.instructions.length ∧ j = i ∧ T₁ = T := by
    intro m j T₁ hj hT₁
    rw [hcode] at hj
    rcases Nat.lt_trichotomy m fs.instructions.length with hm | rfl | hm
    · rw [List.getElem?_append_left hm] at hj
      rw [List.getElem?_append_left (by omega)] at hT₁
      exact .inl ⟨hj, hT₁⟩
    · rw [List.getElem?_concat_length] at hj
      rw [List.getElem?_append_left (by omega), h.last] at hT₁
      cases hj
      cases hT₁
      exact .inr ⟨rfl, rfl, rfl⟩
    · rw [List.getElem?_eq_none (by simp; omega)] at hj
      cases hj
  refine ⟨⟨⟨by simp [hcode, hlen], Tags.get_of_prefix hpre h.typed.first,
    fun m j T₁ hj hT₁ => ?_, fun m j T₁ hj hT₁ hpend => ?_, fun m T₁ hmem => ?_⟩, ?_,
    fun note hnote => ?_, ?_⟩,
    fun Tb Tc => hsteady.compiled hpre hle fun m j hj _ => hkeep m j hj⟩
  · rcases hcases m j T₁ hj hT₁ with ⟨hj', hT₁'⟩ | ⟨rfl, rfl, rfl⟩
    · exact (h.typed.falls m j T₁ hj' hT₁').mono hpre
    · exact hfalls
  · rw [hsteady.unresolvedbreaks, hsteady.unresolvedcontinues] at hpend
    rcases hcases m j T₁ hj hT₁ with ⟨hj', hT₁'⟩ | ⟨rfl, rfl, rfl⟩
    · refine (h.typed.jumps m j T₁ hj' hT₁' fun hmem => hpend ?_).mono hpre
      rcases List.mem_append.mp hmem with hmem | hmem
      · exact List.mem_append_left _ (hP _ hmem)
      · exact List.mem_append_right _ hmem
    · exact hjumps.resolve_left fun hmem => hpend (List.mem_append_left _ hmem)
  · have hold : m :: T₁ ∈ tags ∨ i.op = .PUSHTRAP ∧ m = fs.instructions.length ∧ T₁ = T := by
      rcases List.mem_append.mp hmem with hmem | hmem
      · exact .inl hmem
      · obtain rfl := List.mem_singleton.mp hmem
        rcases hT' with hT' | ⟨hop, hT'⟩
        · exact .inl hT'
        · cases hT'
          exact .inr ⟨hop, rfl, rfl⟩
    rcases hold with hold | ⟨hop, rfl, rfl⟩
    · obtain ⟨hT₁, j, hj, hop⟩ := h.typed.stack m T₁ hold
      exact ⟨Tags.get_of_prefix hpre hT₁, j, hkeep m j hj, hop⟩
    · exact ⟨Tags.get_of_prefix hpre h.last, i, by simp [hcode], hop⟩
  · rw [hcode, List.length_append, List.length_singleton, ← hlen, List.getElem?_concat_length]
  · rw [hsteady.notes] at hnote
    exact (h.noted note hnote).mono hpre
  · rw [hsteady.notes]
    exact h.jumps.mono fun m j hj _ => ⟨j, hkeep m j hj, rfl⟩

/-- There is no instruction at `m` yet, or one that can be merged. -/
def Fresh (fs : SQFuncState) (m : ℕ) : Prop :=
  ∀ i, fs.instructions[m]? = some i → i.op.isPlain = true

theorem fresh_of_le (h : fs.instructions.length ≤ n) : Fresh fs n := by
  intro i hi
  rw [List.getElem?_eq_none h] at hi
  cases hi

variable {f : SQInstruction → SQInstruction} {pos : ℤ}

theorem instructions_modifyInstruction (hpos : pos = n) :
    (fs.modifyInstruction pos f).instructions = fs.instructions.modify n f := by
  rw [modifyInstruction_of_nonneg hpos]

theorem get_modifyInstruction (hpos : pos = n) {m : ℕ} (hi : fs.instructions[m]? = some i) :
    (fs.modifyInstruction pos f).instructions[m]? = some (if n = m then f i else i) := by
  rw [instructions_modifyInstruction hpos, List.getElem?_modify, hi]
  rfl

/-- Patching a jump that was not there at the beginning. -/
theorem Extends.patch (h : Extends fs fs' tags tags') (hpos : pos = n) (hfresh : Fresh fs n)
    (f : SQInstruction → SQInstruction) :
    Extends fs (fs'.modifyInstruction pos f) tags tags' := by
  refine ⟨h.tags, ?_, fun m i hi hop => ?_⟩
  · rw [instructions_modifyInstruction hpos, List.length_modify]
    exact h.le
  · rw [get_modifyInstruction hpos (h.code m i hi hop), if_neg]
    rintro rfl
    rw [hfresh i hi] at hop
    cases hop

theorem LeavesAt.patch {b : ℕ} {pos' : ℤ} (h : LeavesAt b fs.instructions tags pos' T)
    (hpos : pos = n) (hf : ∀ i, (f i).op = i.op) :
    LeavesAt b (fs.modifyInstruction pos f).instructions tags pos' T := by
  obtain ⟨m, i, hm, hle, hi, hop, hT⟩ := h
  refine ⟨m, _, hm, hle, get_modifyInstruction hpos hi, ?_, hT⟩
  split_ifs
  · exact (hf i).trans hop
  · exact hop

theorem Compiled.patch (h : Compiled fs fs' tags tags' Tb Tc) (hpos : pos = n)
    (hfresh : Fresh fs n) (hf : ∀ i, (f i).op = i.op) :
    Compiled fs (fs'.modifyInstruction pos f) tags tags' Tb Tc := by
  have hsteady := steady_modifyInstruction fs' pos f
  obtain ⟨bs, hbs, hb⟩ := h.breaks
  obtain ⟨cs, hcs, hc⟩ := h.continues
  exact ⟨h.toExtends.patch hpos hfresh f,
    ⟨bs, hsteady.unresolvedbreaks.trans hbs, fun p hp => (hb p hp).patch hpos hf⟩,
    ⟨cs, hsteady.unresolvedcontinues.trans hcs, fun p hp => (hc p hp).patch hpos hf⟩⟩

/-- An instruction becomes another one with the same traps before it. -/
theorem Invariant.replace (h : Invariant fs tags T P) {P' : List ℤ} {i' : SQInstruction}
    (hi : fs.instructions[n]? = some i) (hcode : fs'.instructions = fs.instructions.set n i')
    (hsteady : Steady fs fs') (hop : i'.op = i.op ∨ i.op.isPlain = true)
    (hT' : tags[n]? = some T') (hfalls : tags.Falls n i' T')
    (hjumps : (n : ℤ) ∈ P' ∨ tags.Jumps n i' T') (hP : ∀ pos ∈ P, pos = n ∨ pos ∈ P') :
    Invariant fs' tags T P' := by
  have hn := (List.getElem?_eq_some_iff.mp hi).1
  -- an instruction is the new one, or an old one elsewhere
  have hcases : ∀ (m : ℕ) j T₁, fs'.instructions[m]? = some j → tags[m]? = some T₁ →
      m = n ∧ j = i' ∧ T₁ = T' ∨ m ≠ n ∧ fs.instructions[m]? = some j := by
    intro m j T₁ hj hT₁
    rw [hcode] at hj
    by_cases hm : m = n
    · subst hm
      rw [List.getElem?_set_self hn] at hj
      rw [hT'] at hT₁
      exact .inl ⟨rfl, (Option.some.inj hj).symm, (Option.some.inj hT₁).symm⟩
    · rw [List.getElem?_set_ne (Ne.symm hm)] at hj
      exact .inr ⟨hm, hj⟩
  have hkeep : ∀ (m : ℕ) j, fs.instructions[m]? = some j → j.op.isPlain = false →
      ∃ j', fs'.instructions[m]? = some j' ∧ j'.op = j.op := by
    intro m j hj hplain
    rw [hcode]
    by_cases hm : m = n
    · subst hm
      rw [hi] at hj
      cases hj
      refine ⟨i', List.getElem?_set_self hn, hop.resolve_right ?_⟩
      rw [hplain]
      exact Bool.false_ne_true
    · exact ⟨j, (List.getElem?_set_ne (Ne.symm hm)).trans hj, rfl⟩
  refine ⟨⟨by rw [hcode, List.length_set, h.typed.length], h.typed.first,
    fun m j T₁ hj hT₁ => ?_, fun m j T₁ hj hT₁ hpend => ?_, fun m T₁ hmem => ?_⟩, ?_, ?_, ?_⟩
  · rcases hcases m j T₁ hj hT₁ with ⟨rfl, rfl, rfl⟩ | ⟨-, hj'⟩
    · exact hfalls
    · exact h.typed.falls m j T₁ hj' hT₁
  · rw [hsteady.unresolvedbreaks, hsteady.unresolvedcontinues] at hpend
    rcases hcases m j T₁ hj hT₁ with ⟨rfl, rfl, rfl⟩ | ⟨hm, hj'⟩
    · exact hjumps.resolve_left fun hmem => hpend (List.mem_append_left _ hmem)
    · refine h.typed.jumps m j T₁ hj' hT₁ fun hmem => hpend ?_
      rcases List.mem_append.mp hmem with hmem | hmem
      · exact List.mem_append_left _ ((hP _ hmem).resolve_left fun heq => hm (Int.ofNat.inj heq))
      · exact List.mem_append_right _ hmem
  · obtain ⟨hT₁, j, hj, hopj⟩ := h.typed.stack m T₁ hmem
    obtain ⟨j', hj', hop'⟩ := hkeep m j hj (by rw [hopj]; rfl)
    exact ⟨hT₁, j', hj', hop'.trans hopj⟩
  · rw [hcode, List.length_set]
    exact h.last
  · rw [hsteady.notes]
    exact h.noted
  · rw [hsteady.notes]
    exact h.jumps.mono hkeep

/-- A jump that is patched to where there are its traps is no longer pending. -/
theorem Invariant.patch (h : Invariant fs tags T P) (P' : List ℤ) (hpos : pos = n)
    (hi : fs.instructions[n]? = some i) (hf : ∀ i, (f i).op = i.op) (hop : i.op ≠ .POPTRAP)
    (hT' : tags[n]? = some T') (hjumps : (n : ℤ) ∈ P' ∨ tags.Jumps n (f i) T')
    (hP : ∀ pos ∈ P, pos = n ∨ pos ∈ P') :
    Invariant (fs.modifyInstruction pos f) tags T P' := by
  refine h.replace hi ?_ (steady_modifyInstruction fs pos f) (.inl (hf i)) hT' ?_ hjumps hP
  · rw [instructions_modifyInstruction hpos, List.modify_eq_set_getElem?, hi]
    rfl
  · have hfalls := h.typed.falls n i T' hi hT'
    unfold Tags.Falls at *
    rw [hf i]
    split at hfalls <;> simp_all

end Push

end Squirt.SQCompiler
