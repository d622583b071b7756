import Squirt.Lexer

/-!
# String literals

The literals of a string, verbatim and ordinary, and what the lexer makes of them.
-/

namespace Squirt.SQLexer

open Programs Programs.Program

variable {w : ℕ} {F α β : Type} {s s' : SQLexer w F} {c : Char} {text str : List Char}
  {after : List ℤ}

/-- A quote is doubled in a verbatim string. -/
def doubled (c : Char) : List Char := if c = '"' then ['"', '"'] else [c]

def verbatimLiteral (cs : List Char) : List Char := ['@', '"'] ++ cs.flatMap doubled ++ ['"']

def hexDigit (n : ℕ) : Char := if n < 10 then Char.ofNat (48 + n) else Char.ofNat (87 + n)

/-- A character of an ordinary string: with its escape, with four hexadecimal digits when it is
another control character, or as it is -/
def escaped (c : Char) : List Char :=
  match escapes.find? (·.2 = c) with
  | some e => ['\\', e.1]
  | none =>
    if iscntrl c then ['\\', 'x', '0', '0', hexDigit (c.toNat / 16), hexDigit (c.toNat % 16)]
    else [c]

def ordinaryLiteral (cs : List Char) : List Char := '"' :: cs.flatMap escaped ++ ['"']

/-- The string that `Expect` creates of a literal -/
def content (s : SQLexer w F) : List Char := s.longstr.take (s.longstr.length - 1)

/-- The lexer is at a text with some numbers after it, the first of which is a character. -/
structure Faces (text : List Char) (after : List ℤ) (s : SQLexer w F) : Prop where
  codes : ∃ ts : List ℤ, ts.map lexChar = text ∧ (∀ t ∈ ts, t ≤ MAX_CHAR) ∧
    s.currdata = lexChar ((ts ++ after).headD 0) ∧ s.source = (ts ++ after).tail
  valid : after.headD 0 ≤ MAX_CHAR

/-- The lexer is at a text, and the buffer holds a string. -/
structure Reads (text : List Char) (after : List ℤ) (str : List Char) (s : SQLexer w F) : Prop where
  faces : Faces text after s
  longstr : s.longstr = str

theorem Faces.of_eq (h : Faces text after s) (hcur : s'.currdata = s.currdata)
    (hsource : s'.source = s.source) : Faces text after s' := by
  obtain ⟨ts, hmap, hvalid, hfirst, hrest⟩ := h.codes
  exact ⟨⟨ts, hmap, hvalid, hcur.trans hfirst, hsource.trans hrest⟩, h.valid⟩

theorem Faces.cur (h : Faces (c :: text) after s) : s.currdata = c := by
  obtain ⟨ts, hmap, -, hfirst, -⟩ := h.codes
  obtain ⟨t, ts, rfl, ht, -⟩ := List.map_eq_cons_iff.mp hmap
  exact hfirst.trans ht

private theorem Faces.cur_after (h : Faces [] after s) : s.currdata = lexChar (after.headD 0) := by
  obtain ⟨ts, hmap, -, hfirst, -⟩ := h.codes
  obtain rfl := List.map_eq_nil_iff.mp hmap
  exact hfirst

theorem Faces.advanced (h : Faces (c :: text) after s) :
    s.source.headD 0 ≤ MAX_CHAR ∧ Faces text after s.advanced := by
  obtain ⟨ts, hmap, hvalid, -, hrest⟩ := h.codes
  obtain ⟨t, ts, rfl, -, hmap⟩ := List.map_eq_cons_iff.mp hmap
  have hsource : s.source = ts ++ after := hrest
  refine ⟨?_, ⟨ts, hmap, fun t ht => hvalid t (List.mem_cons_of_mem _ ht), ?_, ?_⟩, h.valid⟩
  · rw [hsource]
    cases ts with
    | nil => exact h.valid
    | cons t' ts => exact hvalid t' (List.mem_cons_of_mem _ List.mem_cons_self)
  · rw [SQLexer.advanced, hsource]
  · rw [SQLexer.advanced, hsource]

theorem Faces.length_le (h : Faces text after s) : text.length ≤ s.source.length + 1 := by
  obtain ⟨ts, hmap, -, -, hrest⟩ := h.codes
  rw [hrest, ← hmap, List.length_map, List.length_tail, List.length_append]
  omega

/-! ### The pieces of a string -/

theorem yields_NEXT (h : Reads (c :: text) after str s) :
    Yields s NEXT fun _ => Reads text after str :=
  ⟨(), s.advanced, NEXT_run h.faces.advanced.1, h.faces.advanced.2, h.longstr⟩

theorem yields_appendChar (c : Char) (h : Reads text after str s) :
    Yields s (appendChar c) fun _ => Reads text after (str ++ [c]) := by
  refine ⟨(), _, rfl, h.faces.of_eq rfl rfl, ?_⟩
  exact congrArg (· ++ [c]) h.longstr

/-- The program goes on as `CUR_CHAR` says. -/
theorem Yields.cur {f : Char → Lexer w F β} {Q : β → SQLexer w F → Prop} (hc : s.currdata = c)
    (h : Yields s (f c) Q) : Yields s (CUR_CHAR >>= f) Q := by
  subst hc
  exact h

theorem Reads.next {y : Lexer w F β} {Q : β → SQLexer w F → Prop}
    (h : Reads (c :: text) after str s) (hy : ∀ s', Reads text after str s' → Yields s' y Q) :
    Yields s (NEXT >>= fun _ => y) Q :=
  (yields_NEXT h).bind fun _ => hy

theorem Reads.append {y : Lexer w F β} {Q : β → SQLexer w F → Prop} (c : Char)
    (h : Reads text after str s) (hy : ∀ s', Reads text after (str ++ [c]) s' → Yields s' y Q) :
    Yields s (appendChar c >>= fun _ => y) Q :=
  (yields_appendChar c h).bind fun _ => hy

theorem Yields.pass {wrong : Prop} [Decidable wrong] {err : String} {y : Lexer w F β}
    {Q : β → SQLexer w F → Prop} (h : ¬wrong) (hy : Yields s y Q) :
    Yields s (errorIf wrong err >>= fun _ => y) Q := by
  obtain ⟨b, s', hrun, hb⟩ := hy
  exact ⟨b, s', (bind_ok (errorIf_pass h)).trans hrun, hb⟩

/-- A character that stands for itself -/
theorem readStringChar_itself {verbatim : Bool} (h : Reads (c :: text) after str s)
    (heob : c ≠ SQUIRREL_EOB) (hc : verbatim ∨ (c ≠ '\n' ∧ c ≠ '\\')) :
    Yields s (readStringChar verbatim) fun _ => Reads text after (str ++ [c]) := by
  refine Yields.cur h.faces.cur ?_
  split
  · exact absurd rfl heob
  · have hverbatim := hc.resolve_right fun hc => hc.1 rfl
    refine Yields.pass (not_not.mpr hverbatim) ?_
    refine h.append '\n' fun s₁ h₁ => h₁.next fun s₂ h₂ => ?_
    exact ⟨(), _, rfl, h₂.faces.of_eq rfl rfl, h₂.longstr⟩
  · have hverbatim := hc.resolve_right fun hc => hc.2 rfl
    rw [if_pos hverbatim]
    exact h.append '\\' fun s₁ h₁ => yields_NEXT h₁
  · exact h.append c fun s₁ h₁ => yields_NEXT h₁

/-- A character with an escape of one letter -/
theorem readStringChar_escape {e : Char} (h : Reads ('\\' :: e :: text) after str s)
    (he : escapes.lookup e = some c) :
    Yields s (readStringChar false) fun _ => Reads text after (str ++ [c]) := by
  have hx : e ≠ 'x' := by
    rintro rfl
    cases he
  refine Yields.cur h.faces.cur (h.next fun s₁ h₁ => Yields.cur h₁.faces.cur ?_)
  rw [if_neg hx, he]
  exact h₁.append c fun s₂ h₂ => yields_NEXT h₂

private theorem yields_readHexDigits {ds : List Char} (hds : ∀ d ∈ ds, isxdigit d = true)
    (h : Reads (ds ++ text) after str s) :
    Yields s (readHexDigits ds.length) fun res s' => res = ds ∧ Reads text after str s' := by
  induction ds generalizing s with
  | nil => exact yields_pure ⟨rfl, h⟩
  | cons d ds ih =>
    refine Yields.cur h.faces.cur ?_
    rw [if_pos (hds d List.mem_cons_self)]
    refine h.next fun s₁ h₁ => ?_
    refine (ih (fun d hd => hds d (List.mem_cons_of_mem _ hd)) h₁).bind fun res s₂ hres => ?_
    obtain ⟨rfl, h₂⟩ := hres
    exact yields_pure ⟨rfl, h₂⟩

/-- A character with an escape of four hexadecimal digits -/
theorem readStringChar_hex {d : Char} {ds : List Char} (hds : ∀ d' ∈ d :: ds, isxdigit d' = true)
    (hlen : (d :: ds).length = 4) (h : Reads ('\\' :: 'x' :: d :: ds ++ text) after str s)
    (hc : hexChar (d :: ds) = c) :
    Yields s (readStringChar false) fun _ => Reads text after (str ++ [c]) := by
  refine Yields.cur h.faces.cur (h.next fun s₁ h₁ => Yields.cur h₁.faces.cur ?_)
  rw [if_pos rfl]
  refine h₁.next fun s₂ h₂ => Yields.cur h₂.faces.cur ?_
  refine Yields.pass (not_not.mpr (hds d List.mem_cons_self)) ?_
  rw [← hlen]
  refine (yields_readHexDigits hds h₂).bind fun res s₃ hres => ?_
  obtain ⟨rfl, h₃⟩ := hres
  rw [hc]
  exact yields_appendChar c h₃

private theorem lookup_escapes {e : Char × Char} (he : e ∈ escapes) : escapes.lookup e.1 = some e.2
    := by
  revert e
  decide

private theorem hexChar_hexDigits {n : ℕ} (hn : n < 128) :
    hexChar ['0', '0', hexDigit (n / 16), hexDigit (n % 16)] = Char.ofNat n ∧
      ∀ d ∈ ['0', '0', hexDigit (n / 16), hexDigit (n % 16)], isxdigit d = true := by
  rw [← List.all_eq_true]
  revert n
  decide +kernel

private theorem lt_of_iscntrl (hc : iscntrl c = true) : c.toNat < 128 := by
  rw [iscntrl, Bool.or_eq_true, decide_eq_true_iff, decide_eq_true_iff] at hc
  omega

/-- The lexer decodes what `escaped` encodes. -/
theorem readStringChar_escaped (h : Reads (escaped c ++ text) after str s) :
    s.currdata ≠ '"' ∧ Yields s (readStringChar false) fun _ => Reads text after (str ++ [c]) := by
  unfold escaped at h
  split at h
  · rename_i e hfind
    have he : e.2 = c :=
      of_decide_eq_true (List.find?_some (p := fun e : Char × Char => decide (e.2 = c)) hfind)
    subst he
    refine ⟨?_, readStringChar_escape h (lookup_escapes (List.mem_of_find?_eq_some hfind))⟩
    rw [h.faces.cur]
    decide
  · rename_i hfind
    have hnone : ∀ e ∈ escapes, e.2 ≠ c := fun e he heq =>
      List.find?_eq_none.mp hfind e he (decide_eq_true heq)
    split at h
    · rename_i hc
      obtain ⟨hchar, hdigits⟩ := hexChar_hexDigits (lt_of_iscntrl hc)
      rw [Char.ofNat_toNat] at hchar
      refine ⟨?_, readStringChar_hex hdigits rfl h hchar⟩
      rw [h.faces.cur]
      decide
    · have hcur : s.currdata = c := h.faces.cur
      refine ⟨?_, readStringChar_itself h ?_ (.inr ⟨?_, ?_⟩)⟩
      · rw [hcur]
        exact (hnone ('"', '"') (by decide)).symm
      · exact (hnone ('0', '\x00') (by decide)).symm
      · exact (hnone ('n', '\n') (by decide)).symm
      · exact (hnone ('\\', '\\') (by decide)).symm

/-! ### Whole strings -/

/-- The loop of a string, over characters that are spelled one by one -/
theorem yields_stringRounds {spell : Char → List Char} {verbatim : Bool} {cs : List Char}
    (hspell : ∀ c ∈ cs, ∀ (s : SQLexer w F) (text str : List Char),
      Reads (spell c ++ text) after str s → s.currdata ≠ '"' ∧
        Yields s (readStringChar verbatim) fun _ => Reads text after (str ++ [c]))
    {fuel : ℕ} (hfuel : cs.length < fuel) (h : Reads (cs.flatMap spell ++ '"' :: text) after str s) :
    Yields s (repeatUntil (stringRound '"' verbatim) fuel) fun _ =>
      Reads ('"' :: text) after (str ++ cs) := by
  induction cs generalizing s str fuel with
  | nil =>
    obtain ⟨fuel, rfl⟩ := Nat.exists_eq_add_one.mpr hfuel
    refine Yields.done (Yields.cur h.faces.cur ?_)
    rw [if_pos rfl, List.append_nil]
    exact yields_pure ⟨(), rfl, h⟩
  | cons c cs ih =>
    obtain ⟨fuel, rfl⟩ := Nat.exists_eq_add_one.mpr (Nat.zero_lt_of_lt hfuel)
    rw [List.flatMap_cons, List.append_assoc] at h
    obtain ⟨hcur, hread⟩ := hspell c List.mem_cons_self s _ _ h
    refine Yields.again (Yields.cur rfl ?_)
    rw [if_neg hcur]
    refine hread.bind fun _ s₁ h₁ => yields_pure ⟨rfl, ?_⟩
    rw [List.append_cons]
    exact ih (fun c hc => hspell c (List.mem_cons_of_mem _ hc)) (Nat.lt_of_succ_lt_succ hfuel) h₁

private theorem length_le_length_flatMap {spell : Char → List Char} {cs : List Char}
    (hspell : ∀ c ∈ cs, spell c ≠ []) : cs.length ≤ (cs.flatMap spell).length := by
  induction cs with
  | nil => exact Nat.le_refl 0
  | cons c cs ih =>
    have hc := List.length_pos_iff.mpr (hspell c List.mem_cons_self)
    have hcs := ih fun c hc => hspell c (List.mem_cons_of_mem _ hc)
    rw [List.flatMap_cons, List.length_append, List.length_cons]
    omega

theorem escaped_eq_cons (c : Char) : ∃ d ds, escaped c = d :: ds ∧ d ≠ SQUIRREL_EOB := by
  unfold escaped
  split
  · exact ⟨_, _, rfl, by decide⟩
  · rename_i hfind
    split
    · exact ⟨_, _, rfl, by decide⟩
    · refine ⟨c, [], rfl, ?_⟩
      rintro rfl
      exact absurd hfind (by decide)

private theorem escaped_ne_nil (c : Char) : escaped c ≠ [] := by
  obtain ⟨d, ds, hd, -⟩ := escaped_eq_cons c
  rw [hd]
  exact List.cons_ne_nil d ds

/-- Characters that are spelled one by one fit in the loop of a string. -/
theorem Reads.lt_fuel {spell : Char → List Char} {cs : List Char}
    (h : Reads (cs.flatMap spell ++ text) after str s) (hspell : ∀ c ∈ cs, spell c ≠ []) :
    cs.length < s.source.length + 2 := by
  have hlen := h.faces.length_le
  have hcs := length_le_length_flatMap hspell
  rw [List.length_append] at hlen
  omega

/-- A string that ends at its first quote: it is not verbatim or no other quote follows. -/
theorem stringPart_end {spell : Char → List Char} {verbatim : Bool} {cs : List Char}
    (hspell : ∀ c ∈ cs, spell c ≠ [] ∧ ∀ (s : SQLexer w F) (text str : List Char),
      Reads (spell c ++ text) after str s → s.currdata ≠ '"' ∧
        Yields s (readStringChar verbatim) fun _ => Reads text after (str ++ [c]))
    (hend : verbatim = false ∨ lexChar (after.headD 0) ≠ '"')
    (h : Reads (cs.flatMap spell ++ ['"']) after str s) :
    Yields s (stringPart '"' verbatim) fun res s' =>
      ∃ a : Unit, res = some a ∧ Reads [] after (str ++ cs) s' := by
  have hfuel := h.lt_fuel fun c hc => (hspell c hc).1
  have hloop := yields_stringRounds (fun c hc => (hspell c hc).2) hfuel h
  refine hloop.bind fun _ s₁ h₁ => h₁.next fun s₂ h₂ => Yields.cur h₂.faces.cur_after ?_
  rw [if_neg]
  · exact yields_pure ⟨(), rfl, h₂⟩
  · rintro ⟨hverbatim, hquote⟩
    cases hend with
    | inl hend => cases hverbatim.symm.trans hend
    | inr hend => exact hend hquote

private theorem yields_ordinary {cs : List Char}
    (h : Reads (cs.flatMap escaped ++ ['"']) after str s) :
    Yields s (untilDone (stringPart '"' false)) fun _ => Reads [] after (str ++ cs) :=
  Yields.done (stringPart_end (fun c _ => ⟨escaped_ne_nil c, fun _ _ _ => readStringChar_escaped⟩)
    (.inl rfl) h)

/-- A character of a verbatim string that is not a quote -/
theorem readStringChar_doubled (hc : c ≠ '"') (heob : c ≠ SQUIRREL_EOB) (s : SQLexer w F)
    (text str : List Char) (h : Reads (doubled c ++ text) after str s) :
    s.currdata ≠ '"' ∧ Yields s (readStringChar true) fun _ => Reads text after (str ++ [c]) := by
  rw [doubled, if_neg hc] at h
  refine ⟨?_, readStringChar_itself h heob (.inl rfl)⟩
  rwa [h.faces.cur]

theorem doubled_eq_cons (heob : c ≠ SQUIRREL_EOB) :
    ∃ d ds, doubled c = d :: ds ∧ d ≠ SQUIRREL_EOB := by
  unfold doubled
  split
  · exact ⟨'"', ['"'], rfl, by decide⟩
  · exact ⟨c, [], rfl, heob⟩

theorem doubled_ne_nil (heob : c ≠ SQUIRREL_EOB) : doubled c ≠ [] := by
  obtain ⟨d, ds, hd, -⟩ := doubled_eq_cons heob
  rw [hd]
  exact List.cons_ne_nil d ds

/-- The parts of a verbatim string are separated by its quotes. -/
theorem yields_stringParts (hafter : lexChar (after.headD 0) ≠ '"') (n : ℕ) {cs : List Char}
    (hn : cs.length ≤ n) (hcs : ∀ c ∈ cs, c ≠ SQUIRREL_EOB) {fuel : ℕ} (hfuel : cs.length < fuel)
    (h : Reads (cs.flatMap doubled ++ ['"']) after str s) :
    Yields s (repeatUntil (stringPart '"' true) fuel) fun _ => Reads [] after (str ++ cs) := by
  induction n generalizing cs fuel s str with
  | zero =>
    obtain rfl := List.eq_nil_of_length_eq_zero (Nat.le_zero.mp hn)
    obtain ⟨fuel, rfl⟩ := Nat.exists_eq_add_one.mpr hfuel
    exact Yields.done (stringPart_end (fun c hc => by cases hc) (.inr hafter) h)
  | succ n ih =>
    obtain ⟨fuel, rfl⟩ := Nat.exists_eq_add_one.mpr (Nat.zero_lt_of_lt hfuel)
    by_cases hmem : '"' ∈ cs
    · obtain ⟨cs₁, cs₂, rfl, hnot⟩ := List.eq_append_cons_of_mem hmem
      have hspell : ∀ c ∈ cs₁, c ≠ '"' ∧ c ≠ SQUIRREL_EOB := fun c hc =>
        ⟨fun heq => hnot (heq ▸ hc), hcs c (List.mem_append_left _ hc)⟩
      rw [List.length_append, List.length_cons] at hn hfuel
      rw [List.flatMap_append, List.flatMap_cons, List.append_assoc, List.append_assoc] at h
      have hloop := yields_stringRounds
        (fun c hc => readStringChar_doubled (hspell c hc).1 (hspell c hc).2)
        (h.lt_fuel fun c hc => doubled_ne_nil (hspell c hc).2) h
      refine Yields.again (hloop.bind fun _ s₁ h₁ => h₁.next fun s₂ h₂ => ?_)
      refine Yields.cur h₂.faces.cur ?_
      rw [if_pos ⟨rfl, rfl⟩]
      refine h₂.append '"' fun s₃ h₃ => h₃.next fun s₄ h₄ => yields_pure ⟨rfl, ?_⟩
      have hrest := ih (by omega) (fun c hc => hcs c (List.mem_append_right _ (.tail _ hc)))
        (show cs₂.length < fuel by omega) h₄
      rwa [List.append_assoc, List.append_assoc, List.singleton_append] at hrest
    · have hspell : ∀ c ∈ cs, c ≠ '"' ∧ c ≠ SQUIRREL_EOB := fun c hc =>
        ⟨fun heq => hmem (heq ▸ hc), hcs c hc⟩
      refine Yields.done (stringPart_end (fun c hc => ⟨doubled_ne_nil (hcs c hc), ?_⟩) (.inr hafter) h)
      exact readStringChar_doubled (hspell c hc).1 (hspell c hc).2

/-- A literal is read when its parts are. -/
theorem yields_readString {verbatim : Bool} {cs : List Char} (hc : c ≠ SQUIRREL_EOB)
    (h : Faces ('"' :: c :: text) after s) (hparts : ∀ s₁ : SQLexer w F,
      Reads (c :: text) after [] s₁ →
        Yields s₁ (untilDone (stringPart '"' verbatim)) fun _ => Reads [] after cs) :
    Yields s (readString '"' verbatim) fun t s' =>
      t = TK_STRING_LITERAL ∧ content s' = cs ∧ Faces [] after s' := by
  have hinit : Reads ('"' :: c :: text) after [] { s with longstr := [] } :=
    ⟨h.of_eq rfl rfl, rfl⟩
  refine Yields.bind (Q := fun _ s₁ => Reads ('"' :: c :: text) after [] s₁)
    ⟨(), _, rfl, hinit⟩ fun _ s₁ h₁ => h₁.next fun s₂ h₂ => Yields.cur h₂.faces.cur ?_
  rw [if_neg hc]
  refine (hparts s₂ h₂).bind fun _ s₃ h₃ => h₃.append SQUIRREL_EOB fun s₄ h₄ => ?_
  refine Yields.bind (Q := fun a s₅ => Reads [] after (cs ++ [SQUIRREL_EOB]) s₅)
    ⟨s₄, s₄, rfl, h₄⟩ fun _ s₅ h₅ => yields_pure ⟨rfl, ?_, h₅.faces⟩
  rw [content, h₅.longstr, List.length_append, List.length_singleton, Nat.add_sub_cancel,
    List.take_left]

/-- The token of a string is the token of the call. -/
theorem yields_lex {size : ℕ} {round : ℚ → F} {cs : List Char}
    (h : ∀ s₁ : SQLexer w F, Faces text after s₁ → Yields s₁ (lexRound size round) fun res s' =>
      res = some TK_STRING_LITERAL ∧ content s' = cs ∧ Faces [] after s')
    (hs : Faces text after s) : ∃ s', lex size round s = .ok TK_STRING_LITERAL s' ∧
      content s' = cs ∧ Faces [] after s' := by
  have hset : Faces text after
      { s with lasttokenline := s.currentline, lasttokencolumn := s.currentcolumn } :=
    hs.of_eq rfl rfl
  obtain ⟨res, s', hround, rfl, hcontent, hend⟩ := h _ hset
  exact ⟨s', (bind_ok rfl).trans (repeatUntil_done hround), hcontent, hend⟩

private theorem readString_token {verbatim : Bool} {cs : List Char}
    (h : Yields s (readString '"' verbatim) fun t s' =>
      t = TK_STRING_LITERAL ∧ content s' = cs ∧ Faces [] after s') :
    Yields s (do
      let stype ← readString '"' verbatim
      if stype ≠ -1 then returnToken stype
      else error "error parsing the string" : Lexer w F (Option ℤ)) fun res s' =>
      res = some TK_STRING_LITERAL ∧ content s' = cs ∧ Faces [] after s' := by
  refine h.bind fun t s₁ ht => ?_
  obtain ⟨rfl, hcontent, hend⟩ := ht
  rw [if_pos (by decide)]
  exact ⟨_, _, rfl, rfl, hcontent, hend.of_eq rfl rfl⟩

private theorem flatMap_append_quote_cons {spell : Char → List Char} {cs : List Char}
    (hspell : ∀ c ∈ cs, ∃ d ds, spell c = d :: ds ∧ d ≠ SQUIRREL_EOB) :
    ∃ d ds, cs.flatMap spell ++ ['"'] = d :: ds ∧ d ≠ SQUIRREL_EOB := by
  cases cs with
  | nil => exact ⟨'"', [], rfl, by decide⟩
  | cons c cs =>
    obtain ⟨d, ds, hd, hne⟩ := hspell c List.mem_cons_self
    refine ⟨d, ds ++ cs.flatMap spell ++ ['"'], ?_, hne⟩
    rw [List.flatMap_cons, hd, List.cons_append, List.cons_append, List.append_assoc]

/-- Lexing the verbatim literal of a string without NUL, which no quote follows, yields the
string, and so does lexing its ordinary literal; just the literal is consumed. -/
theorem string_literals_round_trip (size : ℕ) (round : ℚ → F) (cs : List Char) (after : List ℤ)
    (s : SQLexer w F) :
    ((∀ c ∈ cs, c ≠ SQUIRREL_EOB) → lexChar (after.headD 0) ≠ '"' →
      Faces (verbatimLiteral cs) after s →
        ∃ s', lex size round s = .ok TK_STRING_LITERAL s' ∧ content s' = cs ∧ Faces [] after s') ∧
    (Faces (ordinaryLiteral cs) after s →
      ∃ s', lex size round s = .ok TK_STRING_LITERAL s' ∧ content s' = cs ∧
        Faces [] after s') := by
  constructor
  · intro hcs hafter hs
    obtain ⟨d, ds, hbody, hd⟩ := flatMap_append_quote_cons fun c hc => doubled_eq_cons (hcs c hc)
    refine yields_lex (fun s₁ h => ?_) hs
    have hat : Reads ('@' :: '"' :: (cs.flatMap doubled ++ ['"'])) after s₁.longstr s₁ := ⟨h, rfl⟩
    rw [hbody] at hat
    refine Yields.cur hat.faces.cur (hat.next fun s₂ h₂ => Yields.cur h₂.faces.cur ?_)
    rw [if_neg (not_not.mpr rfl)]
    refine readString_token (yields_readString hd h₂.faces fun s₃ h₃ => ?_)
    rw [← hbody] at h₃
    exact yields_stringParts hafter _ (Nat.le_refl _) hcs
      (h₃.lt_fuel fun c hc => doubled_ne_nil (hcs c hc)) h₃
  · intro hs
    obtain ⟨d, ds, hbody, hd⟩ := flatMap_append_quote_cons fun c (_ : c ∈ cs) => escaped_eq_cons c
    refine yields_lex (fun s₁ h => ?_) hs
    have hquote : Faces ('"' :: (cs.flatMap escaped ++ ['"'])) after s₁ := h
    rw [hbody] at hquote
    refine Yields.cur hquote.cur (Yields.cur hquote.cur ?_)
    refine readString_token (yields_readString hd hquote fun s₃ h₃ => ?_)
    rw [← hbody] at h₃
    exact yields_ordinary h₃

/-- The literals of a letter and a quote, before a semicolon -/
theorem string_literals_round_trip_quote :
    (∃ s', lex 8 id { blank with currdata := '@', source := [34, 97, 34, 34, 34, 59] } =
        .ok TK_STRING_LITERAL s' ∧ content s' = ['a', '"'] ∧ Faces [] [59] s') ∧
    ∃ s', lex 8 id { blank with currdata := '"', source := [97, 92, 34, 34, 59] } =
        .ok TK_STRING_LITERAL s' ∧ content s' = ['a', '"'] ∧ Faces [] [59] s' :=
  ⟨(string_literals_round_trip 8 id ['a', '"'] [59] _).1 (by simp; decide) (by decide)
      ⟨⟨[64, 34, 97, 34, 34, 34], by decide, by decide, by decide, rfl⟩, by decide⟩,
    (string_literals_round_trip 8 id ['a', '"'] [59] _).2
      ⟨⟨[34, 97, 92, 34, 34], by decide, by decide, by decide, rfl⟩, by decide⟩⟩

end Squirt.SQLexer
