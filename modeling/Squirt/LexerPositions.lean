import Squirt.Lexer

/-!
# Lines and columns of the lexer

The line of the lexer is one more than the newlines it has passed. Its column is the number of
characters passed as long as there is no newline among them, and larger than the number of
characters since the last newline afterwards.
-/

namespace Squirt.SQLexer

open Programs Programs.Program

variable {w : ℕ} {F α β : Type} {s s' s'' : SQLexer w F}

/-- The characters of a source, up to its end -/
def characters (source : List ℤ) : List Char :=
  (source.map lexChar).takeWhile (· ≠ SQUIRREL_EOB)

/-- The characters that are not passed yet, `CUR_CHAR` first -/
def ahead (s : SQLexer w F) : List Char :=
  (s.currdata :: s.source.map lexChar).takeWhile (· ≠ SQUIRREL_EOB)

/-- The number of characters since the last newline, or since `n` characters when there is
none -/
def sinceNewlineFrom (n : ℕ) (cs : List Char) : ℕ :=
  cs.foldl (fun n c => if c = '\n' then 0 else n + 1) n

/-- The number of characters since the last newline -/
def sinceNewline (cs : List Char) : ℕ := sinceNewlineFrom 0 cs

theorem sinceNewlineFrom_of_notMem {cs : List Char} (h : '\n' ∉ cs) (n : ℕ) :
    sinceNewlineFrom n cs = n + cs.length := by
  induction cs generalizing n with
  | nil => rfl
  | cons c cs ih =>
    rw [List.mem_cons, not_or] at h
    have hc : c ≠ '\n' := fun hc => h.1 hc.symm
    rw [sinceNewlineFrom, List.foldl_cons, if_neg hc]
    refine (ih h.2 (n + 1)).trans ?_
    rw [List.length_cons]
    omega

private theorem sinceNewlineFrom_of_mem {cs : List Char} (h : '\n' ∈ cs) (n m : ℕ) :
    sinceNewlineFrom n cs = sinceNewlineFrom m cs := by
  induction cs generalizing n m with
  | nil => cases h
  | cons c cs ih =>
    rw [sinceNewlineFrom, sinceNewlineFrom, List.foldl_cons, List.foldl_cons]
    by_cases hc : c = '\n'
    · rw [if_pos hc, if_pos hc]
    · rw [if_neg hc, if_neg hc]
      exact ih ((List.mem_cons.mp h).resolve_left fun heq => hc heq.symm) _ _

private theorem sinceNewline_append (cs cs' : List Char) :
    sinceNewline (cs ++ cs') = sinceNewlineFrom (sinceNewline cs) cs' :=
  List.foldl_append

/-- The lexer passes characters, counts their newlines, and its column grows; it is too large
after a newline. -/
structure Passes (s s' : SQLexer w F) (cs : List Char) : Prop where
  ahead : s.ahead = cs ++ s'.ahead
  line : s'.currentline = s.currentline + cs.count '\n'
  column : '\n' ∉ cs → s'.currentcolumn = s.currentcolumn + cs.length
  after : '\n' ∈ cs → sinceNewline cs < s'.currentcolumn

def Moves (s s' : SQLexer w F) : Prop := ∃ cs, Passes s s' cs

theorem Passes.trans {cs cs' : List Char} (h : Passes s s' cs) (h' : Passes s' s'' cs') :
    Passes s s'' (cs ++ cs') where
  ahead := by rw [h.ahead, h'.ahead, List.append_assoc]
  line := by rw [h'.line, h.line, List.count_append, Nat.add_assoc]
  column hnot := by
    rw [List.mem_append, not_or] at hnot
    rw [h'.column hnot.2, h.column hnot.1, List.length_append, Nat.add_assoc]
  after hmem := by
    by_cases hmem' : '\n' ∈ cs'
    · rw [sinceNewline_append, sinceNewlineFrom_of_mem hmem' _ 0]
      exact h'.after hmem'
    · have hcs : '\n' ∈ cs := (List.mem_append.mp hmem).resolve_right hmem'
      rw [sinceNewline_append, sinceNewlineFrom_of_notMem hmem', h'.column hmem']
      exact Nat.add_lt_add_right (h.after hcs) _

/-- Nothing of the position changes. -/
structure Still (s s' : SQLexer w F) : Prop where
  source : s'.source = s.source
  currdata : s'.currdata = s.currdata
  line : s'.currentline = s.currentline
  column : s'.currentcolumn = s.currentcolumn

theorem Still.passes (h : Still s s') : Passes s s' [] where
  ahead := by rw [SQLexer.ahead, SQLexer.ahead, h.source, h.currdata, List.nil_append]
  line := h.line
  column _ := h.column
  after hmem := by cases hmem

theorem Moves.refl (s : SQLexer w F) : Moves s s := ⟨[], Still.passes ⟨rfl, rfl, rfl, rfl⟩⟩

theorem Moves.trans (h : Moves s s') (h' : Moves s' s'') : Moves s s'' := by
  obtain ⟨cs, h⟩ := h
  obtain ⟨cs', h'⟩ := h'
  exact ⟨cs ++ cs', h.trans h'⟩

/-! ### The pieces of the lexer -/

theorem errorIf_ok {wrong : Prop} [Decidable wrong] {err : String}
    (h : errorIf wrong err s = .ok () s') : ¬wrong ∧ s' = s := by
  unfold errorIf at h
  split at h
  · cases h
  · rename_i hwrong
    cases h
    exact ⟨hwrong, rfl⟩

theorem next_spec (h : next s = .ok () s') :
    s' = { s with
      source := s.source.tail
      currdata := lexChar (s.source.headD 0)
      reached_eof := s'.reached_eof } := by
  obtain ⟨_, s₁, hget, h⟩ := exists_of_bind_ok h
  cases hget
  obtain ⟨_, s₂, hset, h⟩ := exists_of_bind_ok h
  cases hset
  obtain ⟨_, s₃, hvalid, h⟩ := exists_of_bind_ok h
  obtain ⟨-, rfl⟩ := errorIf_ok hvalid
  split at h
  · cases h
    rfl
  · rename_i ht
    cases h
    rw [not_not.mp ht]
    rfl

theorem NEXT_ok (hs : s.currdata ≠ SQUIRREL_EOB) (h : NEXT s = .ok () s') :
    s.ahead = s.currdata :: s'.ahead ∧ s'.currentline = s.currentline ∧
      s'.currentcolumn = s.currentcolumn + 1 := by
  obtain ⟨_, s₁, hnext, h⟩ := exists_of_bind_ok h
  cases h
  have hspec := next_spec hnext
  refine ⟨?_, by rw [hspec], by rw [hspec]⟩
  have hhead : s.ahead =
      s.currdata :: (s.source.map lexChar).takeWhile (· ≠ SQUIRREL_EOB) :=
    List.takeWhile_cons_of_pos (decide_eq_true hs)
  rw [hhead, hspec]
  cases hsource : s.source with
  | nil => rfl
  | cons t source => rfl

/-- A program that starts where `CUR_CHAR` has a property keeps the position in order. -/
def Passing (p : Char → Prop) (x : Lexer w F α) : Prop := Leads (fun s => p s.currdata) Moves x

/-- A program that does not touch the position -/
def Stays (x : Lexer w F α) : Prop := ∀ s a s', x s = .ok a s' → Still s s'

/-- A character of a line -/
def InLine (c : Char) : Prop := c ≠ '\n' ∧ c ≠ SQUIRREL_EOB

instance decidableInLine : DecidablePred InLine := fun c =>
  inferInstanceAs (Decidable (c ≠ '\n' ∧ c ≠ SQUIRREL_EOB))

variable {p q : Char → Prop} {x : Lexer w F α} {f : α → Lexer w F β}

theorem Passing.mono (h : Passing p x) (hqp : ∀ c, q c → p c) : Passing q x :=
  Leads.mono h fun s => hqp s.currdata

theorem passing_pure (a : α) : Passing p (pure a : Lexer w F α) := leads_pure Moves.refl a

theorem passing_error (err : String) : Passing p (error err : Lexer w F α) := leads_raise err

theorem passing_NEXT : Passing InLine (NEXT : Lexer w F Unit) := by
  intro s _ s' hs h
  obtain ⟨hahead, hline, hcol⟩ := NEXT_ok hs.2 h
  have hnot : '\n' ∉ [s.currdata] := fun hmem => hs.1 (List.mem_singleton.mp hmem).symm
  refine ⟨[s.currdata], hahead, ?_, fun _ => hcol, fun hmem => absurd hmem hnot⟩
  rw [hline, List.count_eq_zero_of_not_mem hnot, Nat.add_zero]

/-- A newline is counted where it is passed. -/
theorem passes_newline (hs : s.currdata = '\n') (hahead : s.ahead = s.currdata :: s'.ahead)
    (hline : s'.currentline = s.currentline + 1) (hcol : 0 < s'.currentcolumn) : Moves s s' := by
  refine ⟨['\n'], by rw [hahead, hs]; rfl, hline, fun hnot => ?_, fun _ => hcol⟩
  exact absurd (List.mem_singleton_self '\n') hnot

theorem Passing.bind (hx : Passing p x) (hf : ∀ a, Passing (fun _ => True) (f a)) :
    Passing p (x >>= f) :=
  Leads.bind (fun _ _ _ => Moves.trans) hx (fun _ _ _ _ _ => trivial) hf

/-- The rest may rely on the character that the first part ends at. -/
theorem Passing.bind_at (hx : Passing p x)
    (hq : ∀ s a s', p s.currdata → x s = .ok a s' → q s'.currdata) (hf : ∀ a, Passing q (f a)) :
    Passing p (x >>= f) :=
  Leads.bind (Q := fun s : SQLexer w F => q s.currdata) (fun _ _ _ => Moves.trans) hx hq hf

/-- After `NEXT` any character may come. -/
theorem Passing.next (hp : ∀ c, p c → InLine c) {y : Lexer w F α}
    (hy : Passing (fun _ => True) y) : Passing p (NEXT >>= fun _ => y) :=
  (passing_NEXT.mono hp).bind fun _ => hy

/-- The program goes on as `CUR_CHAR` says. -/
theorem Passing.cur {f : Char → Lexer w F β} (hf : ∀ c, p c → Passing (· = c) (f c)) :
    Passing p (CUR_CHAR >>= f) := by
  intro s b s' hs h
  exact hf s.currdata hs s b s' rfl h

theorem Stays.passing (h : Stays x) : Passing p x := fun s a s' _ hx => ⟨[], (h s a s' hx).passes⟩

theorem Stays.bind_passing (h : Stays x) (hf : ∀ a, Passing p (f a)) : Passing p (x >>= f) := by
  refine Leads.bind (fun _ _ _ => Moves.trans) (h.passing (p := p)) ?_ hf
  intro s a s' hs hx
  rwa [(h s a s' hx).currdata]

theorem stays_modify {g : SQLexer w F → SQLexer w F} (h : ∀ s, Still s (g s)) :
    Stays (modify g : Lexer w F Unit) := by
  intro s a s' hx
  cases hx
  exact h s

theorem stays_errorIf {wrong : Prop} [Decidable wrong] {err : String} :
    Stays (errorIf wrong err : Lexer w F Unit) := by
  intro s a s' hx
  obtain ⟨-, rfl⟩ := errorIf_ok hx
  exact ⟨rfl, rfl, rfl, rfl⟩

theorem stays_get : Stays (get : Lexer w F (SQLexer w F)) := by
  intro s a s' hx
  cases hx
  exact ⟨rfl, rfl, rfl, rfl⟩

theorem stays_appendChar (c : Char) : Stays (appendChar c : Lexer w F Unit) :=
  stays_modify fun _ => ⟨rfl, rfl, rfl, rfl⟩

theorem stays_initTempString : Stays (initTempString : Lexer w F Unit) :=
  stays_modify fun _ => ⟨rfl, rfl, rfl, rfl⟩

theorem passing_returnToken (t : ℤ) : Passing p (returnToken t : Lexer w F (Option ℤ)) :=
  (stays_modify fun _ => ⟨rfl, rfl, rfl, rfl⟩ : Stays (setToken t : Lexer w F Unit)).bind_passing
    fun _ => passing_pure _

theorem Passing.untilDone {body : Lexer w F (Option α)} (h : Passing p body)
    (hagain : ∀ s s', p s.currdata → body s = .ok none s' → p s'.currdata) :
    Passing p (untilDone body) := by
  intro s a s' hs hrun
  exact Leads.repeatUntil (R := Moves) (fun _ _ _ => Moves.trans) h hagain _ s a s' hs hrun

/-! ### Comments, strings, identifiers and numbers -/

private theorem passing_blockComment :
    Passing (fun _ => True) (lexBlockComment : Lexer w F Unit) := by
  refine Passing.untilDone (Passing.cur fun c _ => ?_) fun _ _ _ _ => trivial
  split
  · refine .next (fun _ hc => by subst hc; decide) (.cur fun c _ => ?_)
    split
    · rename_i hc
      exact .next (fun _ hc' => by subst hc' hc; decide) (passing_pure _)
    · exact passing_pure _
  · intro s a s'' hs h
    obtain ⟨_, s₁, hline, h⟩ := exists_of_bind_ok h
    cases hline
    obtain ⟨_, s₂, hnext, h⟩ := exists_of_bind_ok h
    cases h
    obtain ⟨hahead, hl, hcol⟩ := NEXT_ok (s := { s with currentline := s.currentline + 1 })
      (by change s.currdata ≠ _; rw [hs]; decide) hnext
    exact passes_newline hs hahead hl (by rw [hcol]; exact Nat.succ_pos _)
  · exact passing_error _
  · rename_i hnl heob
    exact .next (fun c' hc => by subst hc; exact ⟨hnl, heob⟩) (passing_pure _)

/-- The first round passes the character that begins the comment, the others one that does not
end it. -/
theorem passing_lineComment : Passing InLine (lexLineComment : Lexer w F Unit) := by
  refine Passing.untilDone (.next (fun _ hc => hc) (.cur fun c _ => passing_pure _)) ?_
  intro s s'' hs h
  obtain ⟨_, s', hnext, h⟩ := exists_of_bind_ok h
  obtain ⟨c, s₁, hcur, h⟩ := exists_of_bind_ok h
  cases hcur
  by_cases hc : s'.currdata ≠ '\n' ∧ s'.currdata ≠ SQUIRREL_EOB
  · rw [if_pos hc] at h
    cases h
    exact hc
  · rw [if_neg hc] at h
    cases h

private theorem passing_readHexDigits (n : ℕ) :
    Passing (fun _ => True) (readHexDigits n : Lexer w F (List Char)) := by
  induction n with
  | zero => exact passing_pure _
  | succ n ih =>
    refine .cur fun c _ => ?_
    split
    · rename_i hc
      refine .next (fun c' hc' => ?_) (ih.bind fun _ => passing_pure _)
      subst hc'
      constructor
      · rintro rfl
        exact absurd hc (by decide)
      · rintro rfl
        exact absurd hc (by decide)
    · exact passing_pure _

private theorem passing_readEscape : Passing (fun _ => True) (readEscape : Lexer w F Unit) := by
  refine .cur fun c _ => ?_
  split
  · rename_i hx
    subst hx
    refine .next (fun _ hc => by subst hc; decide) (.cur fun c _ => ?_)
    have hdigits : Passing (· = c) (readHexDigits 4 : Lexer w F (List Char)) :=
      (passing_readHexDigits 4).mono fun _ _ => trivial
    exact stays_errorIf.bind_passing fun _ => hdigits.bind fun _ => (stays_appendChar _).passing
  · split
    · rename_i c' hc'
      refine (stays_appendChar c').bind_passing fun _ => ?_
      refine (passing_NEXT.mono fun d hd => ?_)
      subst hd
      -- no escape is a newline
      constructor
      · rintro rfl
        have hnone : escapes.lookup '\n' = none := by decide
        cases hnone.symm.trans hc'
      · rintro rfl
        have hnone : escapes.lookup SQUIRREL_EOB = none := by decide
        cases hnone.symm.trans hc'
    · exact passing_error _

private theorem passing_readStringChar (verbatim : Bool) :
    Passing (fun _ => True) (readStringChar verbatim : Lexer w F Unit) := by
  refine .cur fun c _ => ?_
  split
  · exact passing_error _
  · refine stays_errorIf.bind_passing fun _ => (stays_appendChar _).bind_passing fun _ => ?_
    intro s a s'' hs h
    obtain ⟨_, s₁, hnext, h⟩ := exists_of_bind_ok h
    cases h
    obtain ⟨hahead, hl, hcol⟩ := NEXT_ok (by rw [hs]; decide) hnext
    refine passes_newline hs hahead (congrArg (· + 1) hl) ?_
    change 0 < s₁.currentcolumn
    rw [hcol]
    exact Nat.succ_pos _
  · split
    · exact (stays_appendChar _).bind_passing fun _ =>
        passing_NEXT.mono fun _ hc => by subst hc; decide
    · exact .next (fun _ hc => by subst hc; decide) passing_readEscape
  · rename_i heob hnl _
    exact (stays_appendChar _).bind_passing fun _ =>
      passing_NEXT.mono fun _ hc => by subst hc; exact ⟨hnl, heob⟩

private theorem passing_stringRound (ndelim : Char) (verbatim : Bool) :
    Passing (fun _ => True) (stringRound ndelim verbatim : Lexer w F (Option Unit)) := by
  refine .cur fun c _ => ?_
  split
  · exact passing_pure _
  · exact ((passing_readStringChar verbatim).mono fun _ _ => trivial).bind fun _ => passing_pure _

private theorem stringRound_done {ndelim : Char} {verbatim : Bool} {a : Unit}
    (h : stringRound ndelim verbatim s = .ok (some a) s') : s'.currdata = ndelim := by
  obtain ⟨c, s₁, hcur, h⟩ := exists_of_bind_ok h
  cases hcur
  split at h
  · rename_i hc
    cases h
    exact hc
  · obtain ⟨_, _, -, h⟩ := exists_of_bind_ok h
    cases h

private theorem passing_stringPart {ndelim : Char} (hdelim : InLine ndelim) (verbatim : Bool) :
    Passing (fun _ => True) (stringPart ndelim verbatim : Lexer w F (Option Unit)) := by
  have hloop : Passing (fun _ => True)
      (untilDone (stringRound ndelim verbatim) : Lexer w F Unit) :=
    (passing_stringRound ndelim verbatim).untilDone fun _ _ _ _ => trivial
  refine hloop.bind_at (q := (· = ndelim)) ?_ fun _ => ?_
  · intro s a s' _ h
    exact repeatUntil_result (Q := fun _ s => s.currdata = ndelim)
      (fun _ _ _ => stringRound_done) h
  · refine Passing.next (p := (· = ndelim)) (fun c hc => by subst hc; exact hdelim)
      (.cur fun c _ => ?_)
    split
    · rename_i hc
      exact (stays_appendChar _).bind_passing fun _ =>
        .next (fun _ hc' => by rw [hc', hc.2]; decide) (passing_pure _)
    · exact passing_pure _

private theorem passing_readString {ndelim : Char} (hdelim : InLine ndelim) (verbatim : Bool) :
    Passing (· = ndelim) (readString ndelim verbatim : Lexer w F ℤ) := by
  refine stays_initTempString.bind_passing fun _ =>
    .next (fun c hc => by subst hc; exact hdelim) ?_
  refine .cur fun c _ => ?_
  split
  · exact passing_pure _
  · refine (((passing_stringPart hdelim verbatim).untilDone fun _ _ _ _ => trivial).mono
      fun _ _ => trivial).bind fun _ => ?_
    refine (stays_appendChar _).bind_passing fun _ => stays_get.bind_passing fun _ => ?_
    split
    · refine stays_errorIf.bind_passing fun _ => stays_errorIf.bind_passing fun _ => ?_
      refine Stays.bind_passing ?_ fun _ => passing_pure _
      exact stays_modify fun _ => ⟨rfl, rfl, rfl, rfl⟩
    · exact passing_pure _

private theorem passing_readID : Passing InLine (readID : Lexer w F ℤ) := by
  have hround : Passing InLine (idRound : Lexer w F (Option Unit)) :=
    .cur fun c hc => (stays_appendChar c).bind_passing fun _ =>
      .next (fun c' hc' => by subst hc'; exact hc) (.cur fun _ _ => passing_pure _)
  have hagain : ∀ s s' : SQLexer w F, InLine s.currdata → idRound s = .ok none s' →
      InLine s'.currdata := by
    intro s s'' _ h
    obtain ⟨c, s₁, hcur, h⟩ := exists_of_bind_ok h
    obtain ⟨_, s₂, happend, h⟩ := exists_of_bind_ok h
    obtain ⟨_, s₃, hnext, h⟩ := exists_of_bind_ok h
    obtain ⟨c', s₄, hcur', h⟩ := exists_of_bind_ok h
    cases hcur'
    by_cases hc : s₃.currdata.isAlphanum ∨ s₃.currdata = '_'
    · rw [if_pos hc] at h
      cases h
      constructor
      · intro hnl
        rw [hnl] at hc
        exact absurd hc (by decide)
      · intro heob
        rw [heob] at hc
        exact absurd hc (by decide)
    · rw [if_neg hc] at h
      cases h
  refine stays_initTempString.bind_passing fun _ => (hround.untilDone hagain).bind fun _ => ?_
  exact (stays_appendChar _).bind_passing fun _ => stays_get.bind_passing fun _ => passing_pure _

private theorem passing_digits {digit : Char → Bool} (hdigit : ∀ c, digit c = true → InLine c) :
    Passing (fun _ => True) (untilDone (digitRound digit) : Lexer w F Unit) := by
  refine Passing.untilDone (.cur fun c _ => ?_) fun _ _ _ _ => trivial
  split
  · rename_i hc
    exact (stays_appendChar c).bind_passing fun _ =>
      .next (fun c' hc' => by subst hc'; exact hdigit c' hc) (passing_pure _)
  · exact passing_pure _

theorem inLine_of (digit : Char → Bool) (hnl : digit '\n' = false)
    (heob : digit SQUIRREL_EOB = false) {c : Char} (hc : digit c = true) : InLine c := by
  constructor
  · rintro rfl
    rw [hnl] at hc
    cases hc
  · rintro rfl
    rw [heob] at hc
    cases hc

private theorem passing_readSign : Passing (fun _ => True) (readSign : Lexer w F Unit) := by
  refine .cur fun c _ => ?_
  split
  · rename_i hc
    refine (stays_appendChar c).bind_passing fun _ => passing_NEXT.mono fun c' hc' => ?_
    subst hc'
    rcases hc with rfl | rfl
    · decide
    · decide
  · exact passing_pure _

private theorem passing_readExponent (type : NumberType) :
    Passing (isexponent · = true) (readExponent type : Lexer w F NumberType) := by
  refine stays_errorIf.bind_passing fun _ => .cur fun c hc => ?_
  refine (stays_appendChar c).bind_passing fun _ => .next ?_ (passing_readSign.bind fun _ => ?_)
  · intro c' hc'
    subst hc'
    exact inLine_of isexponent (by decide) (by decide) hc
  · exact .cur fun c _ => stays_errorIf.bind_passing fun _ => passing_pure _

/-- A digit follows an exponent. -/
theorem readExponent_digit {type type' : NumberType}
    (h : readExponent type s = .ok type' s') : s'.currdata.isDigit = true := by
  obtain ⟨_, s₁, -, h⟩ := exists_of_bind_ok h
  obtain ⟨_, s₂, -, h⟩ := exists_of_bind_ok h
  obtain ⟨_, s₃, -, h⟩ := exists_of_bind_ok h
  obtain ⟨_, s₄, -, h⟩ := exists_of_bind_ok h
  obtain ⟨_, s₅, -, h⟩ := exists_of_bind_ok h
  obtain ⟨c, s₆, hcur, h⟩ := exists_of_bind_ok h
  cases hcur
  obtain ⟨_, s₇, herr, hpure⟩ := exists_of_bind_ok h
  obtain ⟨hdigit, rfl⟩ := errorIf_ok herr
  cases hpure
  exact not_not.mp hdigit

private theorem passing_readDecimal (fuel : ℕ) (type : NumberType) :
    Passing (fun _ => True) (readDecimal fuel type : Lexer w F NumberType) := by
  induction fuel generalizing type with
  | zero =>
    intro s a s' _ h
    cases h
  | succ fuel ih =>
    have hrest : ∀ type, Passing InLine (do
        appendChar (← CUR_CHAR)
        NEXT
        readDecimal fuel type : Lexer w F NumberType) := fun type =>
      .cur fun c hc => (stays_appendChar c).bind_passing fun _ =>
        .next (fun c' hc' => by subst hc'; exact hc) (ih type)
    refine .cur fun c _ => ?_
    split
    · rename_i hc
      by_cases he : isexponent c = true
      · simp only [if_pos he]
        have hexp := (passing_readExponent (w := w) (F := F)
          (if c = '.' ∨ isexponent c = true then .TFLOAT else type)).mono
            (q := (· = c)) fun c' hc' => by rw [hc']; exact he
        refine hexp.bind_at ?_ hrest
        intro s type' s' _ h
        exact inLine_of Char.isDigit (by decide) (by decide) (readExponent_digit h)
      · simp only [if_neg he]
        refine Passing.mono (hrest _) fun c' hc' => ?_
        subst hc'
        rcases hc with rfl | hc | hc
        · decide
        · exact inLine_of Char.isDigit (by decide) (by decide) hc
        · exact absurd hc he
    · exact passing_pure _

private theorem passing_readNumber (size : ℕ) (round : ℚ → F) :
    Passing InLine (readNumber size round : Lexer w F ℤ) := by
  have hscan : Passing InLine (scanNumber size : Lexer w F NumberType) := by
    refine .cur fun first hfirst => stays_initTempString.bind_passing fun _ =>
      .next (fun c hc => by subst hc; exact hfirst) (.cur fun c _ => ?_)
    split
    · rename_i hc
      split
      · refine ((passing_digits fun c => ?_).mono fun _ _ => trivial).bind fun _ => ?_
        · exact inLine_of _ (by decide) (by decide)
        · exact .cur fun _ _ => stays_errorIf.bind_passing fun _ => passing_pure _
      · rename_i hoctal
        refine .next ?_ ((passing_digits fun c => ?_).bind fun _ => ?_)
        · intro c' hc'
          subst hc'
          have hx := hc.2.resolve_right hoctal
          constructor
          · rintro rfl
            exact absurd hx (by decide)
          · rintro rfl
            exact absurd hx (by decide)
        · exact inLine_of _ (by decide) (by decide)
        · exact stays_get.bind_passing fun _ => stays_errorIf.bind_passing fun _ => passing_pure _
    · exact (stays_appendChar _).bind_passing fun _ => stays_get.bind_passing fun _ =>
        (passing_readDecimal _ _).mono fun _ _ => trivial
  refine hscan.bind fun type => (stays_appendChar _).bind_passing fun _ =>
    stays_get.bind_passing fun _ => ?_
  have hset : ∀ (g : SQLexer w F → SQLexer w F) (t : ℤ), (∀ s, Still s (g s)) →
      Passing (fun _ => True) (do modify g; pure t : Lexer w F ℤ) := fun g t hg =>
    (stays_modify hg).bind_passing fun _ => passing_pure t
  cases type with
  | TSCIENTIFIC => exact hset _ _ fun _ => ⟨rfl, rfl, rfl, rfl⟩
  | TFLOAT => exact hset _ _ fun _ => ⟨rfl, rfl, rfl, rfl⟩
  | TINT => exact hset _ _ fun _ => ⟨rfl, rfl, rfl, rfl⟩
  | THEX => exact hset _ _ fun _ => ⟨rfl, rfl, rfl, rfl⟩
  | TOCTAL => exact hset _ _ fun _ => ⟨rfl, rfl, rfl, rfl⟩

/-! ### Tokens -/

/-- `NEXT` before a token -/
theorem passing_token {c : Char} (hc : InLine c) (t : ℤ) :
    Passing (· = c) (do NEXT; returnToken t : Lexer w F (Option ℤ)) :=
  .next (fun _ hc' => by subst hc'; exact hc) (passing_returnToken t)

/-- A token with a second character -/
theorem passing_pair {c : Char} (hc : InLine c) {f : Char → Lexer w F (Option ℤ)}
    (hf : ∀ c, Passing (· = c) (f c)) : Passing (· = c) (NEXT >>= fun _ => CUR_CHAR >>= f) :=
  .next (fun _ hc' => by subst hc'; exact hc) (.cur fun c _ => hf c)

/-- A newline among the white space -/
theorem passing_newline :
    Passing (· = '\n') (do
      nextLine
      setToken '\n'.toNat
      NEXT
      modify fun s => { s with currentcolumn := 1 }
      return none : Lexer w F (Option ℤ)) := by
  intro s a s'' hs h
  obtain ⟨_, s₁, hline, h⟩ := exists_of_bind_ok h
  cases hline
  obtain ⟨_, s₂, htoken, h⟩ := exists_of_bind_ok h
  cases htoken
  obtain ⟨_, s₃, hnext, h⟩ := exists_of_bind_ok h
  cases h
  obtain ⟨hahead, hl, -⟩ := NEXT_ok (by change s.currdata ≠ _; rw [hs]; decide) hnext
  exact passes_newline hs hahead hl Nat.one_pos

private theorem passing_string (ndelim : Char) (verbatim : Bool) (h : InLine ndelim) :
    Passing (· = ndelim) (do
      let stype ← readString ndelim verbatim
      if stype ≠ -1 then returnToken stype
      else error "error parsing the string" : Lexer w F (Option ℤ)) := by
  refine (passing_readString h verbatim).bind fun stype => ?_
  split
  · exact passing_returnToken _
  · exact passing_error _

private theorem passing_lexRound (size : ℕ) (round : ℚ → F) :
    Passing (fun _ => True) (lexRound size round : Lexer w F (Option ℤ)) := by
  have hskip : ∀ c, InLine c → Passing (· = c) (do NEXT; return none : Lexer w F (Option ℤ)) :=
    fun c hc => .next (fun _ hc' => by subst hc'; exact hc) (passing_pure _)
  have hother : ∀ (d : Char) (t : ℤ), Passing (· = d) (returnToken t : Lexer w F (Option ℤ)) :=
    fun _ t => passing_returnToken t
  have hbracket : ∀ c, InLine c → Passing (· = c) (do
      let ret ← CUR_CHAR
      NEXT
      returnToken ret.toNat : Lexer w F (Option ℤ)) := fun c hc =>
    .cur fun d hd => passing_token (hd ▸ hc) _
  have hdouble : ∀ c, InLine c → ∀ t t' : ℤ, Passing (· = c) (do
      NEXT
      if (← CUR_CHAR) ≠ c then returnToken t
      else
        NEXT
        returnToken t' : Lexer w F (Option ℤ)) := by
    intro c hc t t'
    refine passing_pair hc fun d => ?_
    split
    · exact hother _ _
    · rename_i hd
      obtain rfl := not_not.mp hd
      exact passing_token hc _
  have hassign : ∀ c, InLine c → ∀ t t' : ℤ, Passing (· = c) (do
      NEXT
      if (← CUR_CHAR) = '=' then
        NEXT
        returnToken t
      else returnToken t' : Lexer w F (Option ℤ)) := by
    intro c hc t t'
    refine passing_pair hc fun d => ?_
    split
    · rename_i hd
      subst hd
      exact passing_token (by decide) _
    · exact hother _ _
  refine .cur fun c _ => ?_
  split
  · exact passing_pure _
  · exact hskip _ (by decide)
  · exact hskip _ (by decide)
  · exact hskip _ (by decide)
  · exact passing_newline
  · exact (passing_lineComment.mono fun _ hc => by subst hc; decide).bind fun _ => passing_pure _
  · refine passing_pair (by decide) fun d => ?_
    split
    · refine .next (fun _ hc => by subst hc; decide) ?_
      exact passing_blockComment.bind fun _ => passing_pure _
    · exact (passing_lineComment.mono fun _ hc => by subst hc; decide).bind fun _ => passing_pure _
    · exact passing_token (by decide) _
    · exact passing_token (by decide) _
    · exact hother _ _
  · refine passing_pair (by decide) fun d => ?_
    split
    · exact hother _ _
    · rename_i hd
      obtain rfl := not_not.mp hd
      exact passing_token (by decide) _
  · refine passing_pair (by decide) fun d => ?_
    split
    · refine passing_pair (by decide) fun d => ?_
      split
      · rename_i hd
        subst hd
        exact passing_token (by decide) _
      · exact hother _ _
    · exact passing_token (by decide) _
    · exact passing_token (by decide) _
    · exact passing_token (by decide) _
    · exact passing_token (by decide) _
    · exact hother _ _
  · refine passing_pair (by decide) fun d => ?_
    split
    · exact passing_token (by decide) _
    · refine passing_pair (by decide) fun d => ?_
      split
      · rename_i hd
        subst hd
        exact passing_token (by decide) _
      · exact hother _ _
    · exact hother _ _
  · refine passing_pair (by decide) fun d => ?_
    split
    · exact hother _ _
    · rename_i hd
      obtain rfl := not_not.mp hd
      exact passing_token (by decide) _
  · refine passing_pair (by decide) fun d => ?_
    split
    · exact hother _ _
    · rename_i hd
      obtain rfl := not_not.mp hd
      exact passing_string '"' true (by decide)
  · exact .cur fun d hd => by subst hd; exact passing_string '"' false (by decide)
  · exact .cur fun d hd => by subst hd; exact passing_string '\'' false (by decide)
  iterate 11 exact hbracket _ (by decide)
  · refine passing_pair (by decide) fun d => ?_
    split
    · exact hother _ _
    · rename_i hd
      obtain rfl := not_not.mp hd
      refine .next (fun _ hc => by subst hc; decide) (.cur fun e _ => ?_)
      intro s a s'' hs h
      obtain ⟨_, s', herr, hrest⟩ := exists_of_bind_ok h
      obtain ⟨he, rfl⟩ := errorIf_ok herr
      exact passing_token (by decide) _ _ a s'' (hs.trans (not_not.mp he)) hrest
  · exact hdouble _ (by decide) _ _
  · refine passing_pair (by decide) fun d => ?_
    split
    · exact passing_token (by decide) _
    · exact passing_token (by decide) _
    · exact hother _ _
  · exact hdouble _ (by decide) _ _
  · exact hassign _ (by decide) _ _
  · exact hassign _ (by decide) _ _
  · refine passing_pair (by decide) fun d => ?_
    split
    · exact passing_token (by decide) _
    · exact passing_token (by decide) _
    · exact hother _ _
  · refine passing_pair (by decide) fun d => ?_
    split
    · exact passing_token (by decide) _
    · exact passing_token (by decide) _
    · exact hother _ _
  · have hc : InLine c := ⟨by assumption, by assumption⟩
    split
    · exact ((passing_readNumber size round).mono fun _ hc' => by subst hc'; exact hc).bind
        fun t => passing_returnToken t
    · split
      · exact (passing_readID.mono fun _ hc' => by subst hc'; exact hc).bind
          fun t => passing_returnToken t
      · exact stays_errorIf.bind_passing fun _ => passing_token hc _

private theorem passing_lex (size : ℕ) (round : ℚ → F) :
    Passing (fun _ => True) (lex size round : Lexer w F ℤ) := by
  have hloop : Passing (fun _ => True) (untilDone (lexRound size round) : Lexer w F ℤ) :=
    (passing_lexRound size round).untilDone fun _ _ _ _ => trivial
  refine Stays.bind_passing ?_ fun _ => hloop
  exact stays_modify fun _ => ⟨rfl, rfl, rfl, rfl⟩

/-! ### Runs -/

/-- `n` calls of `Lex` -/
def lexes (size : ℕ) (round : ℚ → F) : ℕ → Lexer w F Unit
  | 0 => pure ()
  | n + 1 => do
    let _ ← lex size round
    lexes size round n

/-- `n` calls of `Lex` on a source -/
def lexed (size : ℕ) (round : ℚ → F) (source : List ℤ) (n : ℕ) : Lexer w F Unit := do
  init source
  lexes size round n

/-- The characters of a source that are passed -/
def consumed (source : List ℤ) (s : SQLexer w F) : List Char :=
  (characters source).take ((characters source).length - s.ahead.length)

private theorem passing_lexes (size : ℕ) (round : ℚ → F) (n : ℕ) :
    Passing (fun _ => True) (lexes size round n : Lexer w F Unit) := by
  induction n with
  | zero => exact passing_pure ()
  | succ n ih => exact (passing_lex size round).bind fun _ => ih

private theorem init_ok {source : List ℤ} (h : init source s = .ok () s') :
    s'.ahead = characters source ∧ s'.currentline = 1 ∧ s'.currentcolumn = 0 := by
  obtain ⟨_, s₁, hset, hnext⟩ := exists_of_bind_ok h
  cases hset
  have hspec := next_spec hnext
  refine ⟨?_, by rw [hspec], by rw [hspec]⟩
  rw [hspec]
  cases source with
  | nil => rfl
  | cons t source => rfl

private theorem consumed_of_passes {source : List ℤ} {cs : List Char}
    (hs : s.ahead = characters source)
    (h : Passes s s' cs) : consumed source s' = cs := by
  have hsource : characters source = cs ++ s'.ahead := hs.symm.trans h.ahead
  rw [consumed, hsource, List.length_append, Nat.add_sub_cancel, List.take_left]

/-- What a run passes of its source -/
theorem passes_of_lexed {size : ℕ} {round : ℚ → F} {source : List ℤ} {n : ℕ}
    (h : lexed size round source n s = .ok () s') :
    ∃ s₁ : SQLexer w F, s₁.currentline = 1 ∧ s₁.currentcolumn = 0 ∧
      Passes s₁ s' (consumed source s') := by
  obtain ⟨_, s₁, hinit, hlexes⟩ := exists_of_bind_ok h
  obtain ⟨hahead, hline, hcol⟩ := init_ok hinit
  obtain ⟨cs, hpasses⟩ := passing_lexes size round n s₁ () s' trivial hlexes
  refine ⟨s₁, hline, hcol, ?_⟩
  rwa [consumed_of_passes hahead hpasses]

/-- A function gives the column of every run that passes no newline. -/
def RightOnFirstLine (w : ℕ) (size : ℕ) (round : ℚ → F) (f : ℕ → ℕ) : Prop :=
  ∀ (source : List ℤ) (n : ℕ) (s s' : SQLexer w F), lexed size round source n s = .ok () s' →
    '\n' ∉ consumed source s' → s'.currentcolumn = f (sinceNewline (consumed source s'))

private theorem lexRound_space (size : ℕ) (round : ℚ → F) (hs : s.currdata = ' ')
    (h : s.source.headD 0 ≤ MAX_CHAR) : lexRound size round s = .ok none s.advanced := by
  refine (bind_ok rfl).trans ?_
  rw [hs]
  exact bind_ok (NEXT_run h)

/-- A source of spaces has no token; the lexer stops at its end. -/
theorem lexRounds_spaces (size : ℕ) (round : ℚ → F) (n : ℕ) {fuel : ℕ} (hfuel : n + 1 ≤ fuel)
    (hs : s.currdata = lexChar ((List.replicate n 32).headD 0))
    (hsource : s.source = (List.replicate n 32).tail) :
    ∃ t s', repeatUntil (lexRound size round) fuel s = .ok t s' ∧ s'.ahead = [] := by
  induction n generalizing s fuel with
  | zero =>
    obtain ⟨fuel, rfl⟩ := Nat.exists_eq_add_of_le' hfuel
    have heob : s.currdata = SQUIRREL_EOB := hs
    refine ⟨0, s, repeatUntil_done ((bind_ok rfl).trans ?_), ?_⟩
    · rw [heob]
      rfl
    · rw [ahead, heob]
      rfl
  | succ n ih =>
    obtain ⟨fuel, rfl⟩ := Nat.exists_eq_add_of_le' hfuel
    have hspace : s.currdata = ' ' := hs.trans (by decide : lexChar 32 = ' ')
    rw [List.replicate_succ, List.tail_cons] at hsource
    have hvalid : s.source.headD 0 ≤ MAX_CHAR := by
      rw [hsource]
      cases n with
      | zero => decide
      | succ n => exact (by decide : (32 : ℤ) ≤ MAX_CHAR)
    have hround := lexRound_space size round hspace hvalid
    obtain ⟨t, s', hrun, hend⟩ := ih (s := s.advanced)
      (show n + 1 ≤ fuel + n + 1 by omega) (by rw [advanced, hsource]) (by rw [advanced, hsource])
    refine ⟨t, s', ?_, hend⟩
    rw [show fuel + (n + 1 + 1) = fuel + n + 1 + 1 by omega, repeatUntil_again hround]
    exact hrun

private theorem lexed_spaces (size : ℕ) (round : ℚ → F) (n : ℕ) (s : SQLexer w F) :
    ∃ s', lexed size round (List.replicate n 32) 1 s = .ok () s' ∧
      consumed (List.replicate n 32) s' = List.replicate n ' ' := by
  have hvalid : (List.replicate n (32 : ℤ)).headD 0 ≤ MAX_CHAR := by
    cases n with
    | zero => decide
    | succ n => exact (by decide : (32 : ℤ) ≤ MAX_CHAR)
  have hinit : ∃ s₁ : SQLexer w F, init (List.replicate n 32) s = .ok () s₁ ∧
      s₁.currdata = lexChar ((List.replicate n 32).headD 0) ∧
      s₁.source = (List.replicate n 32).tail :=
    ⟨_, (bind_ok rfl).trans (next_run hvalid), rfl, rfl⟩
  obtain ⟨s₁, hinit, hcur, hsource⟩ := hinit
  have hfuel : n + 1 ≤ s₁.source.length + 2 := by
    rw [hsource, List.length_tail, List.length_replicate]
    omega
  obtain ⟨t, s', hrounds, hend⟩ := lexRounds_spaces size round n hfuel
    (s := { s₁ with lasttokenline := s₁.currentline, lasttokencolumn := s₁.currentcolumn })
    hcur hsource
  have hlex : lex size round s₁ = .ok t s' := (bind_ok rfl).trans hrounds
  refine ⟨s', (bind_ok hinit).trans ((bind_ok hlex).trans rfl), ?_⟩
  have hchars : characters (List.replicate n 32) = List.replicate n ' ' := by
    rw [characters, List.map_replicate, List.takeWhile_replicate, if_pos (by decide)]
    rfl
  rw [consumed, hend, hchars, List.length_nil, Nat.sub_zero, List.take_length]

/-- Only the identity gives the column on the first line. -/
theorem RightOnFirstLine.eq_id {size : ℕ} {round : ℚ → F} {f : ℕ → ℕ}
    (hf : RightOnFirstLine w size round f) (s : SQLexer w F) (n : ℕ) : f n = n := by
  obtain ⟨s', hrun, hconsumed⟩ := lexed_spaces size round n s
  obtain ⟨s₁, hline, hcol, hpasses⟩ := passes_of_lexed hrun
  have hnot : '\n' ∉ consumed (List.replicate n 32) s' := by
    rw [hconsumed, List.mem_replicate]
    exact fun h => absurd h.2 (by decide)
  have hf' := hf _ _ _ _ hrun hnot
  have hcol' := hpasses.column hnot
  rw [hconsumed] at hf' hcol' hnot
  rw [hcol, List.length_replicate] at hcol'
  rw [sinceNewline, sinceNewlineFrom_of_notMem hnot, List.length_replicate, Nat.zero_add] at hf'
  omega

private theorem rightOnFirstLine_id (w : ℕ) (size : ℕ) (round : ℚ → F) :
    RightOnFirstLine w size round fun n => n := by
  intro source n s s' hrun hnot
  obtain ⟨s₁, hline, hcol, hpasses⟩ := passes_of_lexed hrun
  rw [sinceNewline, sinceNewlineFrom_of_notMem hnot, hpasses.column hnot, hcol]

/-- The line counts the newlines passed. The column is that function of the characters since the
last newline that gives it on the first line, as long as no newline is passed. -/
theorem position_iff {size : ℕ} {round : ℚ → F} {f : ℕ → ℕ}
    (hf : RightOnFirstLine w size round f) {source : List ℤ} {n : ℕ}
    (hrun : lexed size round source n s = .ok () s') :
    s'.currentline = 1 + (consumed source s').count '\n' ∧
      (s'.currentcolumn = f (sinceNewline (consumed source s')) ↔
        '\n' ∉ consumed source s') := by
  obtain ⟨s₁, hline, hcol, hpasses⟩ := passes_of_lexed hrun
  refine ⟨by rw [hpasses.line, hline], fun heq hmem => ?_, hf source n s s' hrun⟩
  have hafter := hpasses.after hmem
  rw [heq, hf.eq_id s] at hafter
  exact Nat.lt_irrefl _ hafter

/-- A semicolon on the first line and one on the second -/
theorem position_iff_semicolons :
    (∃ s', lexed 8 id [59] 1 blank = .ok () s' ∧ s'.currentline = 1 + (consumed [59] s').count '\n' ∧
      (s'.currentcolumn = sinceNewline (consumed [59] s') ↔ '\n' ∉ consumed [59] s')) ∧
    ∃ s', lexed 8 id [10, 59] 1 blank = .ok () s' ∧
      s'.currentline = 1 + (consumed [10, 59] s').count '\n' ∧
      (s'.currentcolumn = sinceNewline (consumed [10, 59] s') ↔ '\n' ∉ consumed [10, 59] s') :=
  ⟨⟨_, rfl, position_iff (rightOnFirstLine_id 64 8 id) (n := 1) (s := blank) rfl⟩,
    _, rfl, position_iff (rightOnFirstLine_id 64 8 id) (n := 1) (s := blank) rfl⟩

/-- The column of a semicolon that begins the first line is not that of one that begins the second
line. -/
theorem position_not_fixed :
    ¬∃ f : ℕ → ℕ, ∀ (source : List ℤ) (n : ℕ) (s s' : SQLexer 64 ℚ),
      lexed 8 id source n s = .ok () s' →
        s'.currentline = 1 + (consumed source s').count '\n' ∧
          s'.currentcolumn = f (sinceNewline (consumed source s')) := by
  rintro ⟨f, hf⟩
  have hfirst : 1 = f 1 := (hf [59] 1 blank _ rfl).2
  have hsecond : 2 = f 1 := (hf [10, 59] 1 blank _ rfl).2
  omega

end Squirt.SQLexer
