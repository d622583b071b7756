import Squirt.TrapForms

/-!
# Typing the code that leaves statements

`break`, `continue` and `return` pop the traps on their way; `try` is the only statement with
code under another trap. The cases of a `switch` jump over one another.
-/

namespace Squirt.SQCompiler

variable {fs fs' fs₀ fs₁ fs₂ : SQFuncState} {tags tags' tags₀ : Tags} {T T' Tx Tb Tc : List ℕ}
  {P : List ℤ} {n : ℕ} {lex : Lexical} {body other handler : Compile}

section Pop

variable {k : ℕ}

/-- What is left of the traps somewhere are the traps somewhere. -/
theorem Typed.drop_mem {code : List SQInstruction} {pending : List ℤ}
    (h : Typed code tags pending) (hT : T ∈ tags) (k : ℕ) : T.drop k ∈ tags := by
  induction k generalizing T with
  | zero => exact hT
  | succ k ih =>
    cases T with
    | nil => exact hT
    | cons m T => exact ih (List.mem_of_getElem? (h.stack m T hT).1)

private theorem toNat_ofInt_of_le (hk : k ≤ 255) : (BitVec.ofInt 8 k).toNat = k := by
  rw [BitVec.ofInt_natCast, BitVec.toNat_ofNat]
  omega

/-- The last instruction is `op`. -/
def LastIs (fs : SQFuncState) (op : SQOpcode) : Prop :=
  ∃ l i, fs.instructions = l ++ [i] ∧ i.op = op

/-- Popping traps, if there are any to pop. -/
theorem Invariant.popTraps (h : Invariant fs tags T P) (hk : k ≤ T.length) (hle : k ≤ 255) :
    ∃ tags', Keeps fs (addPopTrap fs k) tags tags' (T.drop k) P ∧
      (k = 0 ∨ LastIs (addPopTrap fs k) .POPTRAP) := by
  unfold addPopTrap
  split_ifs with hpos
  · have hcode : (fs.add .POPTRAP k 0 0 0).instructions =
        fs.instructions ++ [.ofArgs none .POPTRAP k 0 0 0] :=
      instructions_add (by simp [SQOpcode.IsPushed, SQInstruction.ofArgs])
    have harg : (SQInstruction.ofArgs none .POPTRAP k 0 0 0).arg0.toNat = k := toNat_ofInt_of_le hle
    refine ⟨_, h.push _ _ hcode (steady_addInstruction _ _) ⟨harg.le.trans hk, ?_⟩ (.inr trivial)
      (fun _ hp => hp) (.inl (h.typed.drop_mem (List.mem_of_getElem? h.last) k)),
      .inr ⟨_, _, hcode, rfl⟩⟩
    rw [harg]
    exact h.get_next _
  · obtain rfl : k = 0 := by omega
    exact ⟨tags, ⟨h, fun _ _ => .refl⟩, .inl rfl⟩

end Pop

section Leave

variable {k : ℕ}

/-- A jump out of a statement, from the traps `T` to the traps `Tx`. -/
structure Leaves (fs fs' : SQFuncState) (tags tags' : Tags) (T Tx : List ℕ) (P : List ℤ) :
    Prop where
  invariant : Invariant fs' tags' T (fs'.getCurrentPos :: P)
  compiled : ∀ Tb Tc, Compiled fs fs' tags tags' Tb Tc
  leaves : LeavesAt fs.instructions.length fs'.instructions tags' fs'.getCurrentPos Tx

theorem Invariant.leaves (h : Invariant fs tags T P) (hlen : T.length ≤ 255) (hTx : Tx <:+ T)
    (hk : k = T.length - Tx.length) :
    ∃ tags', Leaves fs (leave fs k) tags tags' T Tx P := by
  obtain ⟨tags₁, hpop, -⟩ := h.popTraps (k := k) (by omega) (by omega)
  have hdrop : T.drop k = Tx := by
    rw [hk]
    exact (List.suffix_iff_eq_drop.mp hTx).symm
  rw [hdrop] at hpop
  obtain ⟨tags₂, hclose⟩ := (Emitting.resolveOuters (addPopTrap fs k)).keeps hpop.1
  have hcode : (leave fs k).instructions = (addPopTrap fs k).resolveOuters.instructions ++
      [.ofArgs none .JMP 0 (-1234) 0 0] := instructions_add_jmp _ _
  have hcur : (leave fs k).getCurrentPos =
      ((addPopTrap fs k).resolveOuters.instructions.length : ℕ) := by
    simp [SQFuncState.getCurrentPos, hcode]
  have hbefore : ∀ Tb Tc, Compiled fs (addPopTrap fs k).resolveOuters tags tags₂ Tb Tc :=
    fun Tb Tc => (hpop.2 Tb Tc).trans (hclose.2 Tb Tc)
  have hmem : T ∈ tags₂ := (hbefore T T).tags.subset (List.mem_of_getElem? h.last)
  obtain ⟨hinv, hc⟩ := hclose.1.push _ ((leave fs k).getCurrentPos :: P) hcode
    (steady_addInstruction _ _) trivial (.inl (by simp [hcur]))
    (fun _ hp => List.mem_cons_of_mem _ hp) (.inl hmem)
  refine ⟨_, hinv, fun Tb Tc => (hbefore Tb Tc).trans (hc Tb Tc), ?_⟩
  exact ⟨_, .ofArgs none .JMP 0 (-1234) 0 0, hcur, (hbefore T T).le, by simp [hcode], rfl,
    Tags.get_of_prefix (hc T T).tags hclose.1.last⟩

theorem LeavesAt.noted {b : ℕ} {code : List SQInstruction} {pos : ℤ}
    (h : LeavesAt b code tags pos T) : tags.Noted (.jump pos T.length) ∧
      ∃ i, fetch code pos = some i ∧ i.op = .JMP := by
  obtain ⟨n, i, rfl, -, hi, hop, hT⟩ := h
  exact ⟨⟨T, ⟨n, rfl, hT⟩, rfl⟩, i, by simpa [fetch] using hi, hop⟩

/-- The jump is noted, and unresolved from now on. -/
theorem Leaves.note {pos : ℤ} (h : Leaves fs fs₁ tags tags' T Tx P)
    (hcode : fs'.instructions = fs₁.instructions) (hpos : pos = fs₁.getCurrentPos)
    (hnotes : fs'.notes = .jump pos Tx.length :: fs₁.notes)
    (hpend : ∀ p ∈ fs₁.unresolvedbreaks ++ fs₁.unresolvedcontinues,
      p ∈ fs'.unresolvedbreaks ++ fs'.unresolvedcontinues)
    (hmem : pos ∈ fs'.unresolvedbreaks ++ fs'.unresolvedcontinues) : Invariant fs' tags' T P := by
  obtain ⟨hnoted, hjmp⟩ := h.leaves.noted
  have hinv := h.invariant
  rw [← hpos] at hnoted hjmp hinv
  refine ⟨?_, ?_, fun note hnote => ?_, fun p tries hnote => ?_⟩
  · rw [hcode]
    refine hinv.typed.weaken fun p hp => ?_
    rcases List.mem_append.mp hp with hp | hp
    · rcases List.mem_cons.mp hp with rfl | hp
      · exact List.mem_append_right _ hmem
      · exact List.mem_append_left _ hp
    · exact List.mem_append_right _ (hpend p hp)
  · rw [hcode]
    exact hinv.last
  · rw [hnotes] at hnote
    rcases List.mem_cons.mp hnote with rfl | hnote
    · exact hnoted
    · exact hinv.noted note hnote
  · rw [hnotes] at hnote
    rw [hcode]
    rcases List.mem_cons.mp hnote with hnote | hnote
    · cases hnote
      exact hjmp
    · exact hinv.jumps p tries hnote

theorem compiles_break (hlen : T.length ≤ 255) :
    Compiles lex T Tb Tc (breakStatement lex.breakTries) := by
  refine ⟨settles_break _, fun fs fs' tags P hok hinv hctx hkept => ?_⟩
  obtain ⟨ntraps, rest, htargets, rfl⟩ := breakStatement_ok hok
  obtain ⟨hTb, hk, htries⟩ := hctx.breaks _ _ htargets
  obtain ⟨tags', hleave⟩ := hinv.leaves hlen hTb hk
  generalize leave fs ntraps = fs₁ at *
  refine ⟨tags', hleave.note rfl rfl (by rw [htries]) (fun p hp => ?_) ?_, ?_⟩
  · exact List.mem_cons_of_mem _ hp
  · exact List.mem_cons_self
  · obtain ⟨bs, hbs, hb⟩ := (hleave.compiled Tb Tc).breaks
    have he := (hleave.compiled Tb Tc).toExtends
    refine ⟨⟨he.tags, he.le, he.code⟩, ⟨fs₁.getCurrentPos :: bs, ?_, ?_⟩,
      (hleave.compiled Tb Tc).continues⟩
    · exact congrArg (_ :: ·) hbs
    · rintro p (- | ⟨-, hp⟩)
      · exact hleave.leaves
      · exact hb p hp

theorem compiles_continue (hlen : T.length ≤ 255) :
    Compiles lex T Tb Tc (continueStatement lex.continueTries) := by
  refine ⟨settles_continue _, fun fs fs' tags P hok hinv hctx hkept => ?_⟩
  obtain ⟨ntraps, rest, htargets, rfl⟩ := continueStatement_ok hok
  obtain ⟨hTc, hk, htries⟩ := hctx.continues _ _ htargets
  obtain ⟨tags', hleave⟩ := hinv.leaves hlen hTc hk
  generalize leave fs ntraps = fs₁ at *
  refine ⟨tags', hleave.note rfl rfl (by rw [htries]) (fun p hp => ?_) ?_, ?_⟩
  · rcases List.mem_append.mp hp with hp | hp
    · exact List.mem_append_left _ hp
    · exact List.mem_append_right _ (List.mem_cons_of_mem _ hp)
  · exact List.mem_append_right _ List.mem_cons_self
  · obtain ⟨cs, hcs, hc⟩ := (hleave.compiled Tb Tc).continues
    have he := (hleave.compiled Tb Tc).toExtends
    refine ⟨⟨he.tags, he.le, he.code⟩, (hleave.compiled Tb Tc).breaks,
      ⟨fs₁.getCurrentPos :: cs, ?_, ?_⟩⟩
    · exact congrArg (_ :: ·) hcs
    · rintro p (- | ⟨-, hp⟩)
      · exact hleave.leaves
      · exact hc p hp

end Leave

section Return

variable {l : List SQInstruction} {i pi pi' : SQInstruction}

/-- A plain instruction has the same traps as what comes next. -/
theorem Invariant.get_last (h : Invariant fs tags T P) (hcode : fs.instructions = l ++ [pi])
    (hpi : pi.op.isPlain = true) : tags[l.length]? = some T := by
  have hlen : fs.instructions.length = l.length + 1 := by simp [hcode]
  have hn : l.length < tags.length := by
    rw [h.typed.length]
    omega
  have hfalls := h.typed.falls l.length pi _ (by simp [hcode]) (List.getElem?_eq_getElem hn)
  have hnext : tags[l.length + 1]? = some tags[l.length] := by
    revert hfalls hpi
    unfold Tags.Falls
    rcases pi with ⟨op, _, _, _, _, _⟩
    cases op <;> simp [SQOpcode.isPlain]
  rw [← hlen, h.last] at hnext
  rw [List.getElem?_eq_getElem hn, hnext]

/-- Without traps the last instruction may become one that leaves the code. -/
theorem Invariant.exit (h : Invariant fs tags [] P) (hcode : fs.instructions = l ++ [pi])
    (hpi : pi.op.isPlain = true) (hcode' : fs'.instructions = l ++ [pi'])
    (hop : pi'.op = .RETURN ∨ pi'.op = .TAILCALL) (hsteady : Steady fs fs') :
    Keeps fs fs' tags tags [] P := by
  have hget : fs.instructions[l.length]? = some pi := by simp [hcode]
  have hlen : fs.instructions.length = l.length + 1 := by simp [hcode]
  have hset : fs'.instructions = fs.instructions.set l.length pi' := by simp [hcode, hcode']
  refine ⟨h.replace hget hset hsteady (.inr hpi) (h.get_last hcode hpi) ?_ (.inr ?_)
    fun _ hp => .inr hp, fun Tb Tc => hsteady.compiled List.prefix_rfl ?_ fun n j hj hplain => ?_⟩
  · rcases hop with hop | hop
    · simp [Tags.Falls, hop]
    · simp [Tags.Falls, hop, ← hlen, h.last]
  · rcases hop with hop | hop <;> simp [Tags.Jumps, hop]
  · simp [hset]
  · rw [hset, List.getElem?_set_ne, hj]
    rintro rfl
    rw [hget] at hj
    cases hj
    rw [hpi] at hplain
    cases hplain

/-- `_OP_RETURN` without traps; the code goes on with the traps `T`. -/
theorem Invariant.addReturn (h : Invariant fs tags [] P) (hi : i.op = .RETURN) (hT : T ∈ tags)
    (hlast : T = [] ∨ LastIs fs .POPTRAP) :
    ∃ tags', Invariant (fs.addInstruction i) tags' T P ∧
      ∀ Tb Tc, Compiled fs (fs.addInstruction i) tags tags' Tb Tc := by
  have hadded := added fs i
  have hsteady := steady_addInstruction fs i
  generalize fs.addInstruction i = fs' at hadded hsteady ⊢
  generalize hcode' : fs'.instructions = code' at hadded
  have hnil : ∀ {l pi}, fs.instructions = l ++ [pi] → pi.op.isPlain = true → T = [] := by
    intro l pi hcode hpi
    refine hlast.resolve_right ?_
    rintro ⟨l', i', hcode₂, hop⟩
    obtain ⟨-, heq⟩ := List.append_inj' (hcode.symm.trans hcode₂) rfl
    obtain rfl : pi = i' := by simpa using heq
    rw [hop] at hpi
    cases hpi
  cases hadded with
  | @push i' hi' =>
    have hop : i'.op = .RETURN := by rcases hi' with rfl | ⟨-, rfl⟩ <;> exact hi
    obtain ⟨hinv, hc⟩ := h.push T P hcode' hsteady (by simp [Tags.Falls, hop])
      (.inr (by simp [Tags.Jumps, hop])) (fun _ hp => hp) (.inl hT)
    exact ⟨_, hinv, hc⟩
  | @merge l pi pi' hopt hcode hpi hi' =>
    obtain rfl := hnil hcode hpi
    have hret : pi'.op = .RETURN := by
      rcases hi' with ⟨hplain, -⟩ | ⟨hjz, -⟩ | ⟨-, rfl⟩
      · rw [hi] at hplain
        cases hplain
      · rw [hi] at hjz
        cases hjz
      · exact hi
    exact ⟨tags, h.exit hcode hpi hcode' (.inl hret) hsteady⟩
  | @tail l pi hcode hpi _ =>
    have hplain : pi.op.isPlain = true := by rw [hpi]; rfl
    obtain rfl := hnil hcode hplain
    -- first the call, then what comes after it
    obtain ⟨fs₁, hfs₁⟩ : ∃ fs₁, fs₁ =
        { fs with instructions := l ++ [{ pi with op := .TAILCALL }] } := ⟨_, rfl⟩
    have hcode₁ : fs₁.instructions = l ++ [{ pi with op := .TAILCALL }] := by rw [hfs₁]
    have hsteady₁ : Steady fs fs₁ := by
      rw [hfs₁]
      exact ⟨rfl, rfl, rfl, rfl, rfl, rfl⟩
    have hsteady₂ : Steady fs₁ fs' := by
      rw [hfs₁]
      exact ⟨hsteady.traps, hsteady.breaktargets, hsteady.continuetargets,
        hsteady.unresolvedbreaks, hsteady.unresolvedcontinues, hsteady.notes⟩
    have hexit := h.exit hcode hplain hcode₁ (.inr rfl) hsteady₁
    obtain ⟨hinv, hc⟩ := hexit.1.push (i := i) [] P
      (by rw [hcode', hcode₁]; simp) hsteady₂ (by simp [Tags.Falls, hi])
      (.inr (by simp [Tags.Jumps, hi])) (fun _ hp => hp) (.inl hT)
    exact ⟨_, hinv, fun Tb Tc => (hexit.2 Tb Tc).trans (hc Tb Tc)⟩

/-- The traps are popped before a `return`. -/
theorem Invariant.popReturn (h : Invariant fs tags T P) (hlen : T.length ≤ 255)
    (htraps : fs.traps = T.length) (fs' : SQFuncState) (hcode : fs'.instructions = (addPopTrap fs fs.traps).instructions)
    (hsteady : Steady (addPopTrap fs fs.traps) fs') (hi : i.op = .RETURN) :
    ∃ tags', Keeps fs (fs'.addInstruction i) tags tags' T P := by
  obtain ⟨tags₁, hpop, hlast⟩ := h.popTraps (k := fs.traps) htraps.le (htraps ▸ hlen)
  rw [htraps, List.drop_length, ← htraps] at hpop
  have hinv := hpop.1.congr hcode hsteady.unresolvedbreaks hsteady.unresolvedcontinues hsteady.notes
  have hc : ∀ Tb Tc, Compiled fs fs' tags tags₁ Tb Tc := fun Tb Tc =>
    (hpop.2 Tb Tc).congr hcode hsteady.unresolvedbreaks hsteady.unresolvedcontinues
  obtain ⟨tags₂, hinv₂, hc₂⟩ := hinv.addReturn hi
    ((hc T T).tags.subset (List.mem_of_getElem? h.last)) (by
      rcases hlast with hzero | ⟨l, j, hcode', hop⟩
      · exact .inl (List.length_eq_zero_iff.mp (htraps.symm.trans hzero))
      · exact .inr ⟨l, j, hcode.trans hcode', hop⟩)
  exact ⟨tags₂, hinv₂, fun Tb Tc => (hc Tb Tc).trans (hc₂ Tb Tc)⟩

theorem compiles_return (hlen : T.length ≤ 255) (value : Option Labelled) :
    Compiles lex T Tb Tc fun fs => .ok (returnStatement fs .RETURN value) := by
  refine ⟨fun fs fs' hok => Except.ok.inj hok ▸ settled_return fs _ value,
    fun fs fs' tags P hok hinv hctx hkept => ?_⟩
  obtain rfl := Except.ok.inj hok
  cases value with
  | none =>
    obtain ⟨tags', hret⟩ := hinv.popReturn hlen hctx.traps
      { addPopTrap fs fs.traps with returnexp := -1 } rfl ⟨rfl, rfl, rfl, rfl, rfl, rfl⟩
      (i := .ofArgs none .RETURN 0xFF 0 (addPopTrap fs fs.traps).getStackSize 0) rfl
    exact ⟨tags', hret.1, hret.2 Tb Tc⟩
  | some value =>
    have hvalue := Emitting.labelled value fs
    obtain ⟨tags₁, hkeeps⟩ := hvalue.keeps hinv
    have htraps := hvalue.steady.traps.trans hctx.traps
    obtain ⟨fs₁, hfs₁⟩ : ∃ fs₁, fs₁ = addPopTrap (value.emit fs) (value.emit fs).traps := ⟨_, rfl⟩
    obtain ⟨tags₂, hret⟩ := hkeeps.1.popReturn hlen htraps
      { fs₁.popTarget with returnexp := fs.getCurrentPos + 1 }
      (by rw [hfs₁]; rfl) (by rw [hfs₁]; exact ⟨rfl, rfl, rfl, rfl, rfl, rfl⟩)
      (i := .ofArgs none .RETURN 1 fs₁.topTarget fs₁.popTarget.getStackSize 0) rfl
    have hall := hkeeps.trans hret
    subst hfs₁
    exact ⟨tags₂, hall.1, hall.2 Tb Tc⟩

/-- An instruction that is added as it is, and after which there are the same traps. -/
theorem Invariant.pushSame (h : Invariant fs tags T P) (hcode : fs'.instructions =
    fs.instructions ++ [i]) (hsteady : Steady fs fs') (hi : i.op = .YIELD ∨ i.op = .THROW) :
    ∃ tags', Keeps fs fs' tags tags' T P := by
  have hfalls : Tags.Falls (tags ++ [T]) fs.instructions.length i T := by
    rcases hi with hi | hi
    · simpa only [Tags.Falls, hi] using h.get_next T
    · simp only [Tags.Falls, hi]
  have hjumps : Tags.Jumps (tags ++ [T]) fs.instructions.length i T := by
    rcases hi with hi | hi <;> simp only [Tags.Jumps, hi]
  exact ⟨_, h.push _ _ hcode hsteady hfalls (.inr hjumps) (fun _ hp => hp)
    (.inl (List.mem_of_getElem? h.last))⟩

theorem compiles_yield (value : Option Labelled) :
    Compiles lex T Tb Tc fun fs => .ok (returnStatement fs .YIELD value) := by
  refine ⟨fun fs fs' hok => Except.ok.inj hok ▸ settled_return fs _ value,
    fun fs fs' tags P hok hinv hctx hkept => ?_⟩
  obtain rfl := Except.ok.inj hok
  have hreturnexp : ∀ {fs : SQFuncState} {n} {tags}, Invariant fs tags T P →
      Keeps fs { fs with returnexp := n } tags tags T P := fun h =>
    ⟨h.congr rfl rfl rfl rfl, fun _ _ => Compiled.refl.congr rfl rfl rfl⟩
  have hyield : ∀ {fs : SQFuncState} {tags} (a0 a1 a2 : ℤ), Invariant fs tags T P →
      ∃ tags', Keeps fs (fs.add .YIELD a0 a1 a2 0) tags tags' T P := fun a0 a1 a2 h =>
    h.pushSame (instructions_add (by simp [SQOpcode.IsPushed, SQInstruction.ofArgs]))
      (steady_addInstruction _ _) (.inl rfl)
  cases value with
  | none =>
    have hexp := hreturnexp (n := -1) hinv
    obtain ⟨tags', hadd⟩ := hyield 0xFF 0 fs.getStackSize hexp.1
    exact ⟨tags', hadd.1, (hexp.trans hadd).2 Tb Tc⟩
  | some value =>
    obtain ⟨tags₁, hkeeps⟩ := ((Emitting.labelled value fs).trans (.popTarget _)).keeps hinv
    have hexp := hreturnexp (n := fs.getCurrentPos + 1) hkeeps.1
    obtain ⟨tags', hadd⟩ := hyield 1 (value.emit fs).topTarget
      (value.emit fs).popTarget.getStackSize hexp.1
    exact ⟨tags', hadd.1, (hkeeps.trans (hexp.trans hadd)).2 Tb Tc⟩

theorem compiles_throw (value : Labelled) :
    Compiles lex T Tb Tc fun fs => .ok (throwStatement fs value) := by
  refine ⟨fun fs fs' hok => Except.ok.inj hok ▸ settled_throw fs value,
    fun fs fs' tags P hok hinv hctx hkept => ?_⟩
  obtain rfl := Except.ok.inj hok
  obtain ⟨tags₁, hkeeps⟩ := ((Emitting.labelled value fs).trans (.popTarget _)).keeps hinv
  obtain ⟨tags₂, hadd⟩ := hkeeps.1.pushSame
    (instructions_add (i := .ofArgs none .THROW (value.emit fs).topTarget 0 0 0)
      (by simp [SQOpcode.IsPushed, SQInstruction.ofArgs])) (steady_addInstruction _ _) (.inr rfl)
  exact ⟨tags₂, hadd.1, (hkeeps.trans hadd).2 Tb Tc⟩

end Return

section Try

/-- The counts inside a body of `try`. -/
theorem Context.startTry (h : Context lex T Tb Tc fs) (m : ℕ) :
    Context { lex with tries := lex.tries + 1 } (m :: T) Tb Tc (startTry fs) := by
  have hsteady := steady_addInstruction fs (.ofArgs none .PUSHTRAP 0 0 0 0)
  have htop : ∀ {l : List ℕ} {k ks}, modifyTop (· + 1) l = k :: ks →
      ∃ k', l = k' :: ks ∧ k = k' + 1 := by
    intro l k ks hl
    cases l with
    | nil => cases hl
    | cons k' ks' =>
      cases hl
      exact ⟨k', rfl, rfl⟩
  refine ⟨by rw [List.length_cons, h.tries], ?_, fun k ks hk => ?_, fun k ks hk => ?_⟩
  · exact (congrArg (· + 1) hsteady.traps).trans (by rw [h.traps, List.length_cons])
  · obtain ⟨k', hk', rfl⟩ := htop hk
    obtain ⟨hsuffix, hlen, htries⟩ := h.breaks k' ks (hsteady.breaktargets.symm.trans hk')
    have hle := hsuffix.length_le
    exact ⟨hsuffix.trans (List.suffix_cons m T), by rw [List.length_cons]; omega, htries⟩
  · obtain ⟨k', hk', rfl⟩ := htop hk
    obtain ⟨hsuffix, hlen, htries⟩ := h.continues k' ks (hsteady.continuetargets.symm.trans hk')
    have hle := hsuffix.length_le
    exact ⟨hsuffix.trans (List.suffix_cons m T), by rw [List.length_cons]; omega, htries⟩

theorem Invariant.startTry (h : Invariant fs tags T P) :
    ∃ tags', Invariant (startTry fs) tags' (fs.instructions.length :: T)
        ((fs.instructions.length : ℤ) :: P) ∧
      (∀ Tb Tc, Compiled fs (startTry fs) tags tags' Tb Tc) ∧
      (startTry fs).getCurrentPos = fs.instructions.length ∧
      ∃ i, (startTry fs).instructions[fs.instructions.length]? = some i ∧ i.op = .PUSHTRAP := by
  have hcode : (fs.add .PUSHTRAP 0 0 0 0).instructions =
      fs.instructions ++ [.ofArgs none .PUSHTRAP 0 0 0 0] :=
    instructions_add (by simp [SQOpcode.IsPushed, SQInstruction.ofArgs])
  have hcode' : (SQCompiler.startTry fs).instructions =
      fs.instructions ++ [.ofArgs none .PUSHTRAP 0 0 0 0] := hcode
  obtain ⟨hinv, hc⟩ := h.push _ ((fs.instructions.length : ℤ) :: P) hcode
    (steady_addInstruction _ _) (h.get_next _) (.inl List.mem_cons_self)
    (fun _ hp => List.mem_cons_of_mem _ hp) (.inr ⟨rfl, rfl⟩)
  refine ⟨_, hinv.congr rfl rfl rfl rfl, fun Tb Tc => (hc Tb Tc).congr rfl rfl rfl, ?_,
    .ofArgs none .PUSHTRAP 0 0 0 0, by simp [hcode'], rfl⟩
  simp [SQFuncState.getCurrentPos, hcode']

theorem Invariant.endTry (h : Invariant fs tags (n :: T) P) (hT : T ∈ tags) :
    ∃ tags', Keeps fs (endTry fs) tags tags' T P ∧ ∃ m : ℕ, fs.instructions.length ≤ m ∧
      (endTry fs).getCurrentPos = m ∧ JumpAt (endTry fs).instructions tags' m T := by
  have huncount : Invariant (uncountTrap fs) tags (n :: T) P := h.congr rfl rfl rfl rfl
  have hcode : ((uncountTrap fs).add .POPTRAP 1 0 0 0).instructions =
      fs.instructions ++ [.ofArgs none .POPTRAP 1 0 0 0] :=
    instructions_add (by simp [SQOpcode.IsPushed, SQInstruction.ofArgs])
  obtain ⟨hpop, hc⟩ := huncount.push T P hcode (steady_addInstruction _ _)
    ⟨by simp [SQInstruction.ofArgs], huncount.get_next T⟩ (.inr trivial) (fun _ hp => hp) (.inl hT)
  have htargets : Invariant (uncountTargets ((uncountTrap fs).add .POPTRAP 1 0 0 0))
      (tags ++ [T]) T P := hpop.congr rfl rfl rfl rfl
  obtain ⟨tags', hadd, hcur, hjump⟩ := htargets.add_jmp
  have hbefore : ∀ Tb Tc, Compiled fs (uncountTargets ((uncountTrap fs).add .POPTRAP 1 0 0 0))
      tags (tags ++ [T]) Tb Tc := fun Tb Tc =>
    ⟨⟨(hc Tb Tc).tags, (hc Tb Tc).le, (hc Tb Tc).code⟩, (hc Tb Tc).breaks, (hc Tb Tc).continues⟩
  exact ⟨tags', ⟨hadd.1, fun Tb Tc => (hbefore Tb Tc).trans (hadd.2 Tb Tc)⟩, _,
    (hbefore T T).le, hcur, hjump⟩

/-- The handler begins with the traps around the `try`. -/
theorem Invariant.startCatch (h : Invariant fs tags T ((n : ℤ) :: P)) {trappos : ℤ}
    (hpos : trappos = n) {i : SQInstruction} (hi : fs.instructions[n]? = some i)
    (hop : i.op = .PUSHTRAP) (hT : tags[n]? = some T) :
    Invariant (startCatch fs trappos) tags T P := by
  have htarget := h.at_current n
  have harg := h.patch P (f := fun i => { i with arg1 := fs.getCurrentPos - trappos })
    hpos hi (fun _ => rfl) (by simp [hop]) hT (.inr (by simpa only [Tags.Jumps, hop, hpos]))
    fun _ hp => List.mem_cons.mp hp
  have hbegin : Invariant (fs.setArg1 trappos (fs.getCurrentPos - trappos)).beginScope.pushLocalVariable
      tags T P := harg.congr rfl rfl rfl rfl
  have hget := get_modifyInstruction (f := fun i =>
    { i with arg1 := fs.getCurrentPos - trappos }) hpos hi
  rw [if_pos rfl] at hget
  exact hbegin.patch _ hpos hget (fun _ => rfl) (by simp [hop]) hT
    (.inr (by simpa only [Tags.Jumps, hop, hpos])) fun _ hp => .inr hp

theorem Compiled.startCatch (h : Compiled fs fs' tags tags' Tb Tc) {trappos : ℤ}
    (hpos : trappos = n) (hfresh : Fresh fs n) :
    Compiled fs (startCatch fs' trappos) tags tags' Tb Tc :=
  have hstart : Compiled fs (fs'.setArg1 trappos
      (fs'.getCurrentPos - trappos)).beginScope.pushLocalVariable tags tags' Tb Tc :=
    (h.setArg1 _ hpos hfresh).congr rfl rfl rfl
  hstart.patch hpos hfresh fun _ => rfl

theorem JumpAt.startCatch {m : ℕ} {trappos : ℤ} (h : JumpAt fs.instructions tags m T)
    (hpos : trappos = n) : JumpAt (startCatch fs trappos).instructions tags m T := by
  have harg : JumpAt (fs.setArg1 trappos
      (fs.getCurrentPos - trappos)).beginScope.pushLocalVariable.instructions tags m T :=
    h.setArg1 (fs.getCurrentPos - trappos) hpos
  exact harg.patch hpos fun _ => rfl

theorem Compiled.setIntructionParams {pos : ℤ} (h : Compiled fs fs' tags tags' Tb Tc) (val : ℤ)
    (hpos : pos = n) (hfresh : Fresh fs n) :
    Compiled fs (fs'.setIntructionParams pos 0 val) tags tags' Tb Tc :=
  h.patch hpos hfresh fun _ => rfl

theorem Invariant.setIntructionParams {pos val : ℤ} (h : Invariant fs tags T' P)
    (hj : JumpAt fs.instructions tags n T) (hpos : pos = n)
    (htarget : tags.At (pos + 1 + val) T) :
    Invariant (fs.setIntructionParams pos 0 val) tags T' P :=
  h.patchJump hj hpos (fun _ => rfl) (fun _ => rfl) htarget fun _ hp => .inr hp

theorem Compiles.tryCatch
    (hbody : ∀ m, Compiles { lex with tries := lex.tries + 1 } (m :: T) Tb Tc body)
    (hhandler : Compiles lex T Tb Tc handler) :
    Compiles lex T Tb Tc (tryCatchStatement body handler) := by
  refine ⟨(hbody 0).settles.tryCatch hhandler.settles, fun fs fs' tags P hok hinv hctx hkept => ?_⟩
  obtain ⟨fs₁, fs₂, oldscope, h₁, h₂, rfl⟩ := tryCatchStatement_ok hok
  have hend := (hbody 0).settles.endTry h₁
  have hkept₂ := (settled_endCatch fs₂ (endTry fs₁).getCurrentPos oldscope).kept hkept
  have hkept₁ := ((settled_startCatch (endTry fs₁) (startTry fs).getCurrentPos).trans
    (hhandler.settles _ _ h₂)).kept hkept₂
  rw [notes_endTry] at hkept₁
  -- the body, with one more trap
  obtain ⟨tags₁, htry, hc₁, hcur, i, hi, hop⟩ := hinv.startTry
  obtain ⟨tags₂, hinv₂, hc₂⟩ := (hbody _).inScope.typed _ _ tags₁ _ h₁ htry
    (hctx.startTry _) hkept₁
  have hbefore := (hc₁ Tb Tc).trans hc₂
  obtain ⟨tags₃, hpop, m, hm, hjmp, hjump⟩ := hinv₂.endTry
    (hbefore.tags.subset (List.mem_of_getElem? hinv.last))
  have hc₃ := hbefore.trans (hpop.2 Tb Tc)
  -- the handler, with the traps around
  have hget := (hc₂.trans (hpop.2 Tb Tc)).code _ i hi (by rw [hop]; rfl)
  have hcatch := hpop.1.startCatch hcur hget hop (Tags.get_of_prefix hc₃.tags hinv.last)
  have hfresh : ∀ {n}, fs.instructions.length ≤ n → Fresh fs n := fun hn => fresh_of_le hn
  have hstart := hc₃.startCatch hcur (hfresh le_rfl)
  obtain ⟨tags₄, hinv₄, hc₄⟩ := hhandler.typed _ _ tags₃ P h₂ hcatch
    (hctx.settled (hend.trans (settled_startCatch _ _))) hkept₂
  have hjump' : JumpAt (startCatch (endTry fs₁) (startTry fs).getCurrentPos).instructions
      tags₃ m T := hjump.startCatch hcur
  have hpatch := hinv₄.setIntructionParams (hjump'.extends hc₄.toExtends) hjmp
    (hinv₄.at_current _)
  obtain ⟨tags₅, hscope⟩ := (Emitting.endScope _ oldscope).keeps hpatch
  exact ⟨tags₅, hscope.1, ((hstart.trans hc₄).setIntructionParams _ hjmp
    (hfresh (hbefore.le.trans hm))).trans (hscope.2 Tb Tc)⟩

end Try

section Switch

variable {next : ℤ}

/-- The jump of the test of a case, from where the last case ended. -/
def Pending (fs₀ fs : SQFuncState) (tags : Tags) (T : List ℕ) (next : ℤ) : Prop :=
  next ≠ -1 → ∃ m : ℕ, next = m ∧ Fresh fs₀ m ∧ JumpAt fs.instructions tags m T

/-- Compiling the cases from one on keeps the code typed, seen from the beginning `fs₀` of the
`switch`. -/
structure CompilesFrom (lex : Lexical) (T Tb Tc : List ℕ) (c : ℤ → Compile) : Prop where
  settles : ∀ next, Settles (c next)
  typed : ∀ fs₀ fs fs' tags₀ tags P next, c next fs = .ok fs' → Invariant fs tags T P →
    Compiled fs₀ fs tags₀ tags Tb Tc → Pending fs₀ fs tags T next → Context lex T Tb Tc fs →
    (∀ note ∈ fs'.notes, note.Kept) →
    ∃ tags', Invariant fs' tags' T P ∧ Compiled fs₀ fs' tags₀ tags' Tb Tc

/-- A jump that is pending is patched to the current position. -/
theorem Pending.patch (h : Pending fs₀ fs tags T next) (hinv : Invariant fs tags T P)
    (hc : Compiled fs₀ fs tags₀ tags Tb Tc) (hnext : next ≠ -1) :
    Invariant (fs.setArg1 next (fs.getCurrentPos - next)) tags T P ∧
      Compiled fs₀ (fs.setArg1 next (fs.getCurrentPos - next)) tags₀ tags Tb Tc := by
  obtain ⟨m, hm, hfresh, hjump⟩ := h hnext
  exact ⟨hinv.setArg1 hjump hm (hinv.at_current _), hc.setArg1 _ hm hfresh⟩

theorem Pending.extends (h : Pending fs₀ fs tags T next) (he : Extends fs fs' tags tags') :
    Pending fs₀ fs' tags' T next := fun hnext =>
  have ⟨m, hm, hfresh, hjump⟩ := h hnext
  ⟨m, hm, hfresh, hjump.extends he⟩

theorem CompilesFrom.afterCases (default : Option Compile)
    (hdefault : ∀ body, default = some body → Compiles lex T Tb Tc body) :
    CompilesFrom lex T Tb Tc (afterCases default) := by
  refine ⟨Settles.afterCases fun body hbody => (hdefault body hbody).settles,
    fun fs₀ fs fs' tags₀ tags P next hok hinv hc hnext hctx hkept => ?_⟩
  have hend : Invariant (endCases fs next) tags T P ∧
      Compiled fs₀ (endCases fs next) tags₀ tags Tb Tc := by
    unfold endCases
    split_ifs with hne
    · exact hnext.patch hinv hc hne
    · exact ⟨hinv, hc⟩
  cases default with
  | none =>
    obtain rfl := Except.ok.inj hok
    exact ⟨tags, hend⟩
  | some body =>
    obtain ⟨tags', hinv', hc'⟩ := (hdefault body rfl).inScope.typed _ _ tags P hok hend.1
      (hctx.settled (settled_endCases fs next)) hkept
    exact ⟨tags', hinv', hend.2.trans hc'⟩

/-- Before the test of a case, the test before it is over. -/
theorem Invariant.skipTest {skip : ℤ} (h : Invariant fs tags T P)
    (hc : Compiled fs₀ fs tags₀ tags Tb Tc) (hnext : Pending fs₀ fs tags T next)
    (hskip : skipTest fs next = (fs', skip)) :
    ∃ tags', Invariant fs' tags' T P ∧ Compiled fs₀ fs' tags₀ tags' Tb Tc ∧
      Pending fs₀ fs' tags' T skip := by
  unfold SQCompiler.skipTest at hskip
  split_ifs at hskip with hne
  · cases hskip
    obtain ⟨tags', hadd, hcur, hjump⟩ := h.add_jmp
    have hc' := hc.trans (hadd.2 Tb Tc)
    have hpatch := (hnext.extends (hadd.2 Tb Tc).toExtends).patch hadd.1 hc' hne
    obtain ⟨m, hm, -⟩ := hnext hne
    exact ⟨tags', hpatch.1, hpatch.2, fun _ => ⟨_, hcur, fresh_of_le hc.le, hjump.setArg1 _ hm⟩⟩
  · cases hskip
    exact ⟨tags, h, hc, fun hne => absurd rfl hne⟩

theorem Invariant.testCase (h : Invariant fs tags T P) (test : Labelled) (expr : ℕ) :
    ∃ tags', Keeps fs (testCase fs test expr) tags tags' T P ∧ ∃ m : ℕ,
      (testCase fs test expr).getCurrentPos = m ∧ Fresh fs m ∧
      JumpAt (testCase fs test expr).instructions tags' m T := by
  obtain ⟨tags₁, hkeeps⟩ := ((Emitting.labelled test fs).trans
    ((Emitting.popTarget _).trans (@Emitting.add .EQ rfl _ _ _ _ _))).keeps h
  obtain ⟨tags₂, m, hjz, hm, hfresh, hjump⟩ := hkeeps.1.add_jz
    (.ofArgs (some test.label) .JZ (test.emit fs).topTarget 0 0 0) rfl rfl
  exact ⟨tags₂, hkeeps.trans hjz, m, hm, (hkeeps.2 T T).fresh hfresh, hjump⟩

theorem Invariant.endTest {skip : ℤ} (h : Invariant fs tags T P)
    (hc : Compiled fs₀ fs tags₀ tags Tb Tc) (hskip : Pending fs₀ fs tags T skip) :
    Invariant (endTest fs skip) tags T P ∧ Compiled fs₀ (endTest fs skip) tags₀ tags Tb Tc ∧
      (endTest fs skip).getCurrentPos = fs.getCurrentPos ∧
      ∀ m, JumpAt fs.instructions tags m T → JumpAt (endTest fs skip).instructions tags m T := by
  unfold SQCompiler.endTest
  split_ifs with hne
  · obtain ⟨m, hm, -⟩ := hskip hne
    obtain ⟨hinv, hc'⟩ := hskip.patch h hc hne
    exact ⟨hinv, hc', getCurrentPos_setArg1 _ _ _, fun _ hjump => hjump.setArg1 _ hm⟩
  · exact ⟨h, hc, rfl, fun _ hjump => hjump⟩

theorem Invariant.caseClause (hbody : Compiles lex T Tb Tc body) {expr : ℕ} {test : Labelled}
    {next' : ℤ} (hok : caseClause body expr test next fs = .ok (fs', next'))
    (h : Invariant fs tags T P) (hc : Compiled fs₀ fs tags₀ tags Tb Tc)
    (hnext : Pending fs₀ fs tags T next) (hctx : Context lex T Tb Tc fs)
    (hkept : ∀ note ∈ fs'.notes, note.Kept) :
    ∃ tags', Invariant fs' tags' T P ∧ Compiled fs₀ fs' tags₀ tags' Tb Tc ∧
      Pending fs₀ fs' tags' T next' := by
  obtain ⟨fs₁, skip, fs₂, hskip, rfl, h₂, rfl⟩ := caseClause_ok hok
  have hsettled := settled_skipTest fs next
  rw [hskip] at hsettled
  obtain ⟨tags₁, hinv₁, hc₁, hpend⟩ := h.skipTest hc hnext hskip
  obtain ⟨tags₂, htest, m, hm, hfresh, hjump⟩ := hinv₁.testCase test expr
  obtain ⟨hinv₂, hc₂, hcur, hjumps⟩ := htest.1.endTest (hc₁.trans (htest.2 Tb Tc))
    (hpend.extends (htest.2 Tb Tc).toExtends)
  obtain ⟨tags₃, hinv₃, hc₃⟩ := hbody.inScope.typed _ _ tags₂ P h₂ hinv₂ (hctx.settled
    (hsettled.trans ((settled_testCase _ _ _).trans (settled_endTest _ _)))) hkept
  exact ⟨tags₃, hinv₃, hc₂.trans hc₃, fun _ => ⟨m, hcur.trans hm, hc₁.fresh hfresh,
    (hjumps m hjump).extends hc₃.toExtends⟩⟩

theorem CompilesFrom.case {rest : ℤ → Compile} (hbody : Compiles lex T Tb Tc body)
    (hrest : CompilesFrom lex T Tb Tc rest) (expr : ℕ) (test : Labelled) :
    CompilesFrom lex T Tb Tc fun next fs =>
      caseClause body expr test next fs >>= fun r => rest r.2 r.1 := by
  refine ⟨fun next fs fs' hok => ?_, fun fs₀ fs fs' tags₀ tags P next hok hinv hc hnext hctx hkept => ?_⟩
  · obtain ⟨⟨fs₁, next'⟩, h₁, h₂⟩ := exists_of_bind_eq_ok hok
    exact (Settles.caseClause hbody.settles h₁).trans (hrest.settles _ _ _ h₂)
  · obtain ⟨⟨fs₁, next'⟩, h₁, h₂⟩ := exists_of_bind_eq_ok hok
    obtain ⟨tags₁, hinv₁, hc₁, hnext₁⟩ := hinv.caseClause hbody h₁ hc hnext hctx
      ((hrest.settles _ _ _ h₂).kept hkept)
    exact hrest.typed fs₀ fs₁ fs' tags₀ tags₁ P next' h₂ hinv₁ hc₁ hnext₁
      (hctx.settled (Settles.caseClause hbody.settles h₁)) hkept

/-- The counts inside a `switch`: `continue` is not for it. -/
theorem Context.switch (h : Context lex T Tb Tc fs) :
    Context ⟨lex.tries, lex.tries, lex.continueTries⟩ T T Tc
      { fs with breaktargets := 0 :: fs.breaktargets } := by
  refine ⟨h.tries, h.traps, fun k ks hk => ?_, h.continues⟩
  cases hk
  exact ⟨List.suffix_rfl, by simp, h.tries⟩

theorem Compiles.switch {cases : ℕ → ℤ → Compile}
    (hcases : ∀ expr, CompilesFrom ⟨lex.tries, lex.tries, lex.continueTries⟩ T T Tc (cases expr))
    (value : Labelled) :
    Compiles lex T Tb Tc (switchStatement value fun expr => cases expr (-1)) := by
  refine ⟨Settles.switch (fun expr => (hcases expr).settles _) value,
    fun fs fs' tags P hok hinv hctx hkept => ?_⟩
  obtain ⟨fs₁, expr, fs₂, rfl, h₂, rfl⟩ := switchStatement_ok hok
  have hvalue := Emitting.labelled value fs
  obtain ⟨tags₁, hkeeps⟩ := hvalue.keeps hinv
  have hctx₁ := (hctx.settled hvalue.settled).switch
  obtain ⟨fs₃, hfs₃⟩ : ∃ fs₃, fs₃ =
      { value.emit fs with breaktargets := 0 :: (value.emit fs).breaktargets } := ⟨_, rfl⟩
  rw [← hfs₃] at hctx₁ h₂
  have hinv₃ : Invariant fs₃ tags₁ T P := hkeeps.1.congr (by rw [hfs₃]) (by rw [hfs₃])
    (by rw [hfs₃]) (by rw [hfs₃])
  have hc₃ : Compiled fs fs₃ tags tags₁ T Tc := (hkeeps.2 T Tc).congr (by rw [hfs₃])
    (by rw [hfs₃]) (by rw [hfs₃])
  have hkept₂ := ((Emitting.popTarget fs₂).settled.trans (settled_resolveBreaks
    (fs₂.popTarget.unresolvedbreaks.length - (value.emit fs).unresolvedbreaks.length) _)).kept hkept
  obtain ⟨tags₂, hinv₂, hc₂⟩ := (hcases expr).typed fs fs₃ fs₂ tags tags₁ P (-1) h₂ hinv₃ hc₃
    (fun hne => absurd rfl hne) hctx₁ hkept₂
  obtain ⟨tags₄, hpop⟩ := (Emitting.popTarget fs₂).keeps hinv₂
  have hall := hc₂.trans (hpop.2 T Tc)
  obtain ⟨bs, hbs, hb⟩ := hall.breaks
  have hlen : fs₂.popTarget.unresolvedbreaks.length - (value.emit fs).unresolvedbreaks.length =
      bs.length := by
    rw [hvalue.steady.unresolvedbreaks, hbs, List.length_append, Nat.add_sub_cancel]
  rw [hlen]
  obtain ⟨hres, hrest, hcontinues⟩ := hpop.1.resolveBreaks hall.toExtends hbs hb
  generalize SQFuncState.resolveBreaks bs.length fs₂.popTarget = fs₅ at hres hrest hcontinues
  obtain ⟨cs, hcs, hcleaves⟩ := hall.continues
  have he := hres.extends_
  exact ⟨tags₄, hres.invariant.congr rfl rfl rfl rfl, ⟨⟨he.tags, he.le, he.code⟩,
    ⟨[], hrest, by simp⟩, ⟨cs, hcontinues.trans hcs, fun p hp => hres.leaves _ _ _ (hcleaves p hp)⟩⟩⟩

end Switch

theorem Compiles.withStatement (hbody : Compiles lex T Tb Tc body) (line : ℕ) :
    Compiles lex T Tb Tc (withStatement body line lex.tries) := by
  refine ⟨hbody.settles.withStatement line _, fun fs fs' tags P hok hinv hctx hkept => ?_⟩
  obtain ⟨fs₁, h₁, rfl⟩ := withStatement_ok hok
  have hline := Emitting.addLineInfos fs line false
  obtain ⟨tags₁, hkeeps⟩ := hline.keeps hinv
  have hctx₁ := hctx.settled hline.settled
  have hstart : Invariant (startStatement fs line lex.tries) tags₁ T P := by
    refine ⟨hkeeps.1.typed, hkeeps.1.last, fun note hnote => ?_, fun pos tries hnote => ?_⟩
    · rcases List.mem_cons.mp hnote with rfl | hnote
      · exact ⟨T, hkeeps.1.at_next, hctx.tries.symm⟩
      · exact hkeeps.1.noted note hnote
    · rcases List.mem_cons.mp hnote with hnote | hnote
      · cases hnote
      · exact hkeeps.1.jumps pos tries hnote
  obtain ⟨tags₂, hinv₂, hc₂⟩ := hbody.typed _ _ tags₁ P h₁ hstart
    ⟨hctx₁.tries, hctx₁.traps, hctx₁.breaks, hctx₁.continues⟩ hkept
  have hc₁ : Compiled fs (startStatement fs line lex.tries) tags tags₁ Tb Tc :=
    (hkeeps.2 Tb Tc).congr rfl rfl rfl
  exact ⟨tags₂, hinv₂.congr rfl rfl rfl rfl, (hc₁.trans hc₂).congr rfl rfl rfl⟩

end Squirt.SQCompiler
