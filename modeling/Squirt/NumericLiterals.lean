import Squirt.LexerPositions
import Squirt.NumberTexts

/-!
# Numeric literals

What `ReadNumber` makes of the text it reads.
-/

namespace Squirt.SQLexer

open Programs Programs.Program

variable {w : ℕ} {F α β : Type} {s s' s'' : SQLexer w F} {u v : List Char}

/-- The lexer passes a text and appends it to its buffer. -/
structure Appends (s s' : SQLexer w F) (u : List Char) : Prop where
  ahead : s.ahead = u ++ s'.ahead
  longstr : s'.longstr = s.longstr ++ u

theorem Appends.refl (s : SQLexer w F) : Appends s s [] := ⟨rfl, (List.append_nil _).symm⟩

theorem Appends.trans (h : Appends s s' u) (h' : Appends s' s'' v) : Appends s s'' (u ++ v) where
  ahead := by rw [h.ahead, h'.ahead, List.append_assoc]
  longstr := by rw [h'.longstr, h.longstr, List.append_assoc]

theorem NEXT_longstr (h : NEXT s = .ok () s') : s'.longstr = s.longstr := by
  obtain ⟨_, s₁, hnext, hcol⟩ := exists_of_bind_ok h
  cases hcol
  rw [next_spec hnext]

theorem appends_NEXT (hs : s.currdata ≠ SQUIRREL_EOB)
    (h : NEXT { s with longstr := s.longstr ++ [s.currdata] } = .ok () s') :
    Appends s s' [s.currdata] := by
  exact ⟨(NEXT_ok (s := { s with longstr := s.longstr ++ [s.currdata] }) hs h).1, NEXT_longstr h⟩

theorem any_head?_ahead {p : Char → Bool} (hp : p SQUIRREL_EOB = false) :
    s.ahead.head?.any p = p s.currdata := by
  by_cases hs : s.currdata = SQUIRREL_EOB
  · have hnil : s.ahead = [] := List.takeWhile_cons_of_neg (by rw [hs]; decide)
    rw [hnil, hs, hp]
    rfl
  · have hcons : s.ahead = s.currdata :: _ := List.takeWhile_cons_of_pos (decide_eq_true hs)
    rw [hcons]
    rfl

theorem ne_eob_of {p : Char → Bool} (hp : p SQUIRREL_EOB = false) {c : Char} (hc : p c = true) :
    c ≠ SQUIRREL_EOB := by
  rintro rfl
  cases hp.symm.trans hc

/-- The digits at a place -/
theorem appends_digits {p : Char → Bool} (hp : p SQUIRREL_EOB = false) {fuel : ℕ}
    (h : repeatUntil (digitRound p) fuel s = .ok () s') :
    ∃ ds, Appends s s' ds ∧ (∀ c ∈ ds, p c = true) ∧ p s'.currdata = false := by
  induction fuel generalizing s with
  | zero => cases h
  | succ fuel ih =>
    obtain ⟨res, s₁, hround, hrest⟩ := exists_of_bind_ok h
    obtain ⟨c, s₂, hcur, hround⟩ := exists_of_bind_ok hround
    cases hcur
    by_cases hc : p s.currdata = true
    · rw [if_pos hc] at hround
      obtain ⟨_, s₃, happend, hround⟩ := exists_of_bind_ok hround
      cases happend
      obtain ⟨_, s₄, hnext, hpure⟩ := exists_of_bind_ok hround
      cases hpure
      have hfirst := appends_NEXT (ne_eob_of hp hc) hnext
      obtain ⟨ds, hds, hall, hstop⟩ := ih hrest
      exact ⟨s.currdata :: ds, hfirst.trans hds, List.forall_mem_cons.mpr ⟨hc, hall⟩, hstop⟩
    · rw [if_neg hc] at hround
      cases hround
      cases hrest
      exact ⟨[], .refl _, List.forall_mem_nil _, Bool.not_eq_true _ ▸ hc⟩

private theorem appends_readSign (h : readSign s = .ok () s') :
    ∃ sign, Appends s s' sign ∧ (sign = [] ∨ sign = ['+'] ∨ sign = ['-']) := by
  obtain ⟨c, s₁, hcur, hrest⟩ := exists_of_bind_ok h
  cases hcur
  by_cases hc : s.currdata = '+' ∨ s.currdata = '-'
  · rw [if_pos hc] at hrest
    obtain ⟨_, s₂, happend, hnext⟩ := exists_of_bind_ok hrest
    cases happend
    have heob : s.currdata ≠ SQUIRREL_EOB := by
      rcases hc with hc | hc
      · rw [hc]
        decide
      · rw [hc]
        decide
    have hsign : [s.currdata] = ['+'] ∨ [s.currdata] = ['-'] := by
      rcases hc with hc | hc
      · exact .inl (congrArg (fun c => [c]) hc)
      · exact .inr (congrArg (fun c => [c]) hc)
    exact ⟨_, appends_NEXT heob hnext, .inr hsign⟩
  · rw [if_neg hc] at hrest
    cases hrest
    exact ⟨[], .refl _, .inl rfl⟩

private theorem appends_readExponent {type type' : NumberType} (he : isexponent s.currdata = true)
    (h : readExponent type s = .ok type' s') :
    type' = .TSCIENTIFIC ∧ s'.currdata.isDigit = true ∧ ∃ sign, Appends s s' (s.currdata :: sign) ∧
      (sign = [] ∨ sign = ['+'] ∨ sign = ['-']) := by
  have hdigit := readExponent_digit h
  obtain ⟨_, s₁, herr, hrest⟩ := exists_of_bind_ok h
  obtain ⟨-, rfl⟩ := errorIf_ok herr
  obtain ⟨c, s₂, hcur, hrest⟩ := exists_of_bind_ok hrest
  cases hcur
  obtain ⟨_, s₃, happend, hrest⟩ := exists_of_bind_ok hrest
  cases happend
  obtain ⟨_, s₄, hnext, hrest⟩ := exists_of_bind_ok hrest
  obtain ⟨_, s₅, hsign, hrest⟩ := exists_of_bind_ok hrest
  obtain ⟨c, s₆, hcur, hrest⟩ := exists_of_bind_ok hrest
  cases hcur
  obtain ⟨_, s₇, herr', hpure⟩ := exists_of_bind_ok hrest
  obtain ⟨-, rfl⟩ := errorIf_ok herr'
  cases hpure
  obtain ⟨sign, hsign, hcases⟩ := appends_readSign hsign
  exact ⟨rfl, hdigit, sign, (appends_NEXT (ne_eob_of (by decide) he) hnext).trans hsign, hcases⟩

/-- The rest of a number, read after its first character -/
theorem appends_readDecimal {fuel : ℕ} {type type' : NumberType}
    (h : readDecimal fuel type s = .ok type' s') :
    ∃ u, Appends s s' u ∧ Pieces type u type' ∧ Stops s'.ahead := by
  induction fuel generalizing s type with
  | zero => cases h
  | succ fuel ih =>
    obtain ⟨c, s₁, hcur, hrest⟩ := exists_of_bind_ok h
    cases hcur
    by_cases hc : s.currdata = '.' ∨ s.currdata.isDigit = true ∨ isexponent s.currdata = true
    · rw [if_pos hc] at hrest
      have hmore : ∀ {type₁ : NumberType} {s₁ : SQLexer w F}, s₁.currdata ≠ SQUIRREL_EOB →
          (do
            appendChar (← CUR_CHAR)
            NEXT
            readDecimal fuel type₁ : Lexer w F NumberType) s₁ = .ok type' s' →
          ∃ u, Appends s₁ s' (s₁.currdata :: u) ∧ Pieces type₁ u type' ∧ Stops s'.ahead := by
        intro type₁ s₁ hs₁ hrun
        obtain ⟨c, s₂, hcur, hrun⟩ := exists_of_bind_ok hrun
        cases hcur
        obtain ⟨_, s₃, happend, hrun⟩ := exists_of_bind_ok hrun
        cases happend
        obtain ⟨_, s₄, hnext, hrun'⟩ := exists_of_bind_ok hrun
        obtain ⟨u, hu, hpieces, hstops⟩ := ih hrun'
        exact ⟨u, (appends_NEXT hs₁ hnext).trans hu, hpieces, hstops⟩
      by_cases he : isexponent s.currdata = true
      · simp only [if_pos he] at hrest
        obtain ⟨type₁, s₂, hexp, hrest'⟩ := exists_of_bind_ok hrest
        obtain ⟨rfl, hdigit, sign, hsign, hcases⟩ := appends_readExponent he hexp
        obtain ⟨u, hu, hpieces, hstops⟩ := hmore (ne_eob_of (by decide) hdigit) hrest'
        refine ⟨_, hsign.trans hu, ?_, hstops⟩
        rw [List.cons_append]
        exact .exponent he hcases hdigit hpieces
      · simp only [if_neg he] at hrest
        obtain ⟨type₁, s₂, htype, hrest'⟩ := exists_of_bind_ok hrest
        cases htype
        rcases hc with hc | hc | hc
        · obtain ⟨u, hu, hpieces, hstops⟩ := hmore (by rw [hc]; decide) hrest'
          rw [if_pos (.inl hc)] at hpieces
          rw [hc] at hu
          exact ⟨_, hu, .point hpieces, hstops⟩
        · obtain ⟨u, hu, hpieces, hstops⟩ := hmore (ne_eob_of (by decide) hc) hrest'
          have hpoint : s.currdata ≠ '.' := fun hpoint => by
            rw [hpoint] at hc
            cases hc
          rw [if_neg (not_or.mpr ⟨hpoint, he⟩)] at hpieces
          exact ⟨_, hu, .digit hc hpieces, hstops⟩
        · exact absurd hc he
    · rw [if_neg hc] at hrest
      cases hrest
      refine ⟨[], .refl _, .done _, ?_⟩
      rw [not_or, not_or, Bool.not_eq_true, Bool.not_eq_true] at hc
      rw [Stops, any_head?_ahead (by decide), decide_eq_false hc.1, hc.2.1, hc.2.2]
      rfl

/-- The texts of numbers that `ReadNumber` tells apart by their first characters -/
inductive Scanned (s s' : SQLexer w F) : NumberType → Prop
  | octal {o : Char} {ds : List Char} (htext : s.ahead = '0' :: (o :: ds ++ s'.ahead))
      (hds : ∀ c ∈ o :: ds, scisodigit c = true)
      (hstop : s'.ahead.head?.any scisodigit = false) (hbuffer : s'.longstr = o :: ds) :
      Scanned s s' .TOCTAL
  | hexadecimal {x : Char} {ds : List Char} (htext : s.ahead = '0' :: x :: (ds ++ s'.ahead))
      (hx : x.toUpper = 'X') (hds : ∀ c ∈ ds, isxdigit c = true)
      (hstop : s'.ahead.head?.any isxdigit = false) (hbuffer : s'.longstr = ds) :
      Scanned s s' .THEX
  | decimal {d : Char} {u : List Char} {type : NumberType} (htext : s.ahead = d :: u ++ s'.ahead)
      (hd : d.isDigit = true) (hpieces : Pieces .TINT u type)
      (hstart : ¬(s.ahead.head? = some '0' ∧
        (s.ahead.tail.head?.any (·.toUpper = 'X') ∨ s.ahead.tail.head?.any scisodigit)))
      (hstop : Stops s'.ahead) (hbuffer : s'.longstr = d :: u) : Scanned s s' type

private theorem scanned_of_scanNumber {size : ℕ} {type : NumberType}
    (hs : s.currdata.isDigit = true)
    (h : scanNumber size s = .ok type s') : Scanned s s' type := by
  have heob := ne_eob_of (p := Char.isDigit) (by decide) hs
  obtain ⟨first, s₁, hcur, hrest⟩ := exists_of_bind_ok h
  cases hcur
  obtain ⟨_, s₂, hinit, hrest⟩ := exists_of_bind_ok hrest
  cases hinit
  obtain ⟨_, s₃, hnext, hrest⟩ := exists_of_bind_ok hrest
  have hfirst : s.ahead = s.currdata :: s₃.ahead :=
    (NEXT_ok (s := { s with longstr := [] }) heob hnext).1
  have hbuffer : s₃.longstr = [] := NEXT_longstr hnext
  obtain ⟨c, s₄, hcur, hrest⟩ := exists_of_bind_ok hrest
  cases hcur
  by_cases hzero : s.currdata = '0' ∧ (s₃.currdata.toUpper = 'X' ∨ scisodigit s₃.currdata = true)
  · rw [if_pos hzero] at hrest
    by_cases hoctal : scisodigit s₃.currdata = true
    · rw [if_pos hoctal] at hrest
      obtain ⟨_, s₅, hloop, hrest⟩ := exists_of_bind_ok hrest
      obtain ⟨c, s₆, hcur, hrest⟩ := exists_of_bind_ok hrest
      cases hcur
      obtain ⟨_, s₇, herr, hpure⟩ := exists_of_bind_ok hrest
      obtain ⟨-, rfl⟩ := errorIf_ok herr
      cases hpure
      obtain ⟨ds, hds, hall, hstop⟩ := appends_digits (by decide) hloop
      have hahead := any_head?_ahead (s := s') (p := scisodigit) (by decide)
      have hne : s₃.ahead.head?.any scisodigit = true := (any_head?_ahead (by decide)).trans hoctal
      cases ds with
      | nil =>
        rw [hds.ahead, List.nil_append, hahead, hstop] at hne
        cases hne
      | cons o ds =>
        refine .octal ?_ hall (hahead.trans hstop) ?_
        · rw [hfirst, hzero.1, hds.ahead]
        · rw [hds.longstr, hbuffer, List.nil_append]
    · rw [if_neg hoctal] at hrest
      have hx := hzero.2.resolve_right hoctal
      have hxeob : s₃.currdata ≠ SQUIRREL_EOB := by
        intro hxeob
        rw [hxeob] at hx
        exact absurd hx (by decide)
      obtain ⟨_, s₅, hnext', hrest⟩ := exists_of_bind_ok hrest
      obtain ⟨_, s₆, hloop, hrest⟩ := exists_of_bind_ok hrest
      obtain ⟨_, s₇, hget, hrest⟩ := exists_of_bind_ok hrest
      cases hget
      obtain ⟨_, s₈, herr, hpure⟩ := exists_of_bind_ok hrest
      obtain ⟨-, rfl⟩ := errorIf_ok herr
      cases hpure
      obtain ⟨ds, hds, hall, hstop⟩ := appends_digits (by decide) hloop
      have hahead := any_head?_ahead (s := s') (p := isxdigit) (by decide)
      have hbuffer' : s₅.longstr = [] := (NEXT_longstr hnext').trans hbuffer
      refine .hexadecimal ?_ hx hall (hahead.trans hstop) ?_
      · rw [hfirst, hzero.1, (NEXT_ok hxeob hnext').1, hds.ahead]
      · rw [hds.longstr, hbuffer', List.nil_append]
  · rw [if_neg hzero] at hrest
    obtain ⟨_, s₅, happend, hrest⟩ := exists_of_bind_ok hrest
    cases happend
    obtain ⟨_, s₆, hget, hrest⟩ := exists_of_bind_ok hrest
    cases hget
    obtain ⟨u, hu, hpieces, hstops⟩ := appends_readDecimal hrest
    have htext : s₃.ahead = u ++ s'.ahead := hu.ahead
    refine .decimal ?_ hs hpieces ?_ hstops ?_
    · rw [hfirst, htext, List.cons_append]
    · rw [hfirst, List.head?_cons, List.tail_cons, Option.some_inj,
        any_head?_ahead (p := fun c => decide (c.toUpper = 'X')) (by decide),
        any_head?_ahead (p := scisodigit) (by decide), decide_eq_true_iff]
      exact hzero
    · rw [hu.longstr]
      change s₃.longstr ++ [s.currdata] ++ u = _
      rw [hbuffer, List.nil_append, List.singleton_append]

/-- A token is the value of its text. -/
def Denotes (round : ℚ → F) (text : List Char) (t : ℤ) (s : SQLexer w F) : Prop :=
  (∃ n : ℕ, IntegerLiteral text n ∧ t = TK_INTEGER ∧ s.nvalue.toInt = n) ∨
    ∃ q, FloatLiteral text q ∧ t = TK_FLOAT ∧ s.fvalue = round q

private theorem denotes_iff {round : ℚ → F} {text : List Char} {t : ℤ}
    (htext : s.ahead = text ++ s'.ahead) :
    (∃ text, s.ahead = text ++ s'.ahead ∧ Denotes round text t s') ↔ Denotes round text t s' := by
  constructor
  · rintro ⟨text', htext', h⟩
    obtain rfl := List.append_cancel_right (htext'.symm.trans htext)
    exact h
  · exact fun h => ⟨text, htext, h⟩

theorem denotes_integer_iff {round : ℚ → F} {text : List Char} :
    Denotes round text TK_INTEGER s ↔ ∃ n : ℕ, IntegerLiteral text n ∧ s.nvalue.toInt = n := by
  constructor
  · rintro (⟨n, htext, -, hn⟩ | ⟨q, -, ht, -⟩)
    · exact ⟨n, htext, hn⟩
    · cases ht
  · rintro ⟨n, htext, hn⟩
    exact .inl ⟨n, htext, rfl, hn⟩

private theorem denotes_float_iff {round : ℚ → F} {text : List Char} :
    Denotes round text TK_FLOAT s ↔ ∃ q, FloatLiteral text q ∧ s.fvalue = round q := by
  constructor
  · rintro (⟨n, -, ht, -⟩ | ⟨q, htext, -, hq⟩)
    · cases ht
    · exact ⟨q, htext, hq⟩
  · rintro ⟨q, htext, hq⟩
    exact .inr ⟨q, htext, rfl, hq⟩

/-- The value that the text of a number is converted to -/
def Converted (round : ℚ → F) (text : List Char) (type : NumberType) (t : ℤ)
    (s : SQLexer w F) : Prop :=
  match type with
  | .TFLOAT | .TSCIENTIFIC => t = TK_FLOAT ∧ s.fvalue = round (scstrtod text)
  | .TINT => t = TK_INTEGER ∧ s.nvalue = lexInteger text
  | .THEX => t = TK_INTEGER ∧ s.nvalue = lexHexadecimal text
  | .TOCTAL => t = TK_INTEGER ∧ s.nvalue = lexOctal text

private theorem readNumber_converted {size : ℕ} {round : ℚ → F} {t : ℤ}
    (h : readNumber size round s = .ok t s') :
    ∃ type s₁, scanNumber size s = .ok type s₁ ∧ s'.ahead = s₁.ahead ∧
      Converted round s₁.longstr type t s' := by
  obtain ⟨type, s₁, hscan, hrest⟩ := exists_of_bind_ok h
  obtain ⟨_, s₂, hterm, hrest⟩ := exists_of_bind_ok hrest
  cases hterm
  obtain ⟨_, s₃, hget, hrest⟩ := exists_of_bind_ok hrest
  cases hget
  have hlong : (s₁.longstr ++ [Char.ofNat 0]).dropLast = s₁.longstr := List.dropLast_concat
  refine ⟨type, s₁, hscan, ?_⟩
  cases type with
  | TINT =>
    cases hrest
    exact ⟨rfl, rfl, congrArg lexInteger hlong⟩
  | TFLOAT =>
    cases hrest
    exact ⟨rfl, rfl, congrArg (fun text => round (scstrtod text)) hlong⟩
  | THEX =>
    cases hrest
    exact ⟨rfl, rfl, congrArg lexHexadecimal hlong⟩
  | TSCIENTIFIC =>
    cases hrest
    exact ⟨rfl, rfl, congrArg (fun text => round (scstrtod text)) hlong⟩
  | TOCTAL =>
    cases hrest
    exact ⟨rfl, rfl, congrArg lexOctal hlong⟩

/-- An integer has the value of its digits when they fit. -/
theorem denotes_integer_of {round : ℚ → F} {text : List Char} {value : ℕ} {p : Prop}
    (htext : ∀ n, IntegerLiteral text n ↔ p ∧ n = value) (hs : s.nvalue = BitVec.ofNat w value) :
    Denotes round text TK_INTEGER s ↔ p ∧ value < 2 ^ (w - 1) := by
  rw [denotes_integer_iff, ← toInt_ofNat_eq_iff, ← hs]
  constructor
  · rintro ⟨n, hn, hvalue⟩
    obtain ⟨hp, rfl⟩ := (htext n).mp hn
    exact ⟨hp, hvalue⟩
  · exact fun h => ⟨value, (htext value).mpr ⟨h.1, rfl⟩, h.2⟩

private theorem denotes_decimal {round : ℚ → F} {t : ℤ} {d : Char} {u : List Char}
    {type : NumberType}
    (hd : d.isDigit = true) (hpieces : Pieces .TINT (d :: u) type) (hv : Stops v)
    (hstart : ¬(d = '0' ∧ u.head?.any scisodigit = true))
    (hconv : Converted round (d :: u) type t s) :
    Denotes round (d :: u) t s ↔
      if goesOn ((d :: u ++ v).dropWhile Char.isDigit) then goesOn (afterNumber (d :: u ++ v)) = false
      else digitsValue 10 ((d :: u ++ v).takeWhile Char.isDigit) < 2 ^ (w - 1) := by
  by_cases htype : type = .TINT
  · subst htype
    obtain ⟨rfl, hvalue⟩ := hconv
    have hdigits := (hpieces.tint rfl).2
    have hstop := any_isDigit_of_stops hv
    rw [dropWhile_run hdigits hstop, takeWhile_run hdigits hstop, goesOn_eq_false_of_stops hv,
      if_neg Bool.false_ne_true]
    rw [lexInteger_eq] at hvalue
    refine (denotes_integer_of (p := True) (fun n => ?_) hvalue).trans (Iff.of_eq (true_and _))
    exact (integerLiteral_decimal hdigits hstart).trans (Iff.of_eq (true_and _)).symm
  · obtain ⟨hgoes, hfloat⟩ := hpieces.float_iff hd htype hv
    rw [if_pos hgoes, ← hfloat]
    have hconv' : t = TK_FLOAT ∧ s.fvalue = round (scstrtod (d :: u)) := by
      rcases hpieces.type_cases.resolve_left htype with rfl | rfl
      · exact hconv
      · exact hconv
    obtain ⟨rfl, hvalue⟩ := hconv'
    rw [denotes_float_iff]
    constructor
    · exact fun h => ⟨h.choose, h.choose_spec.1⟩
    · rintro ⟨q, hq⟩
      exact ⟨q, hq, hvalue.trans (congrArg round hq.scstrtod)⟩

/-- A number that is read is the value of its text if and only if the text that the lexer is at
can be read so. -/
theorem readNumber_denotes_iff (size : ℕ) (round : ℚ → F) {t : ℤ}
    (hs : s.currdata.isDigit = true) (h : readNumber size round s = .ok t s') :
    (∃ text, s.ahead = text ++ s'.ahead ∧ Denotes round text t s') ↔ Denotable w s.ahead := by
  obtain ⟨type, s₁, hscan, hahead, hconv⟩ := readNumber_converted h
  rw [hahead]
  cases scanned_of_scanNumber hs hscan with
  | @octal o ds htext hds hstop hbuffer =>
    obtain ⟨rfl, hvalue⟩ := hconv
    rw [hbuffer, lexOctal_eq] at hvalue
    have htext' : s.ahead = ('0' :: o :: ds) ++ s₁.ahead := htext
    rw [← hahead] at htext' htext hstop ⊢
    rw [denotes_iff htext', htext, denotable_octal hds hstop]
    refine (denotes_integer_of (p := True) (fun n => ?_) hvalue).trans (Iff.of_eq (true_and _))
    exact (integerLiteral_octal hds).trans (Iff.of_eq (true_and _)).symm
  | @hexadecimal x ds htext hx hds hstop hbuffer =>
    obtain ⟨rfl, hvalue⟩ := hconv
    rw [hbuffer, lexHexadecimal_eq] at hvalue
    have htext' : s.ahead = ('0' :: x :: ds) ++ s₁.ahead := htext
    rw [← hahead] at htext' htext hstop ⊢
    rw [denotes_iff htext', htext, denotable_hexadecimal hx hds hstop]
    exact denotes_integer_of (fun n => integerLiteral_hexadecimal hx hds) hvalue
  | @decimal d u type htext hd hpieces hstart hstop hbuffer =>
    rw [hbuffer] at hconv
    rw [denotable_decimal hstart]
    rw [← hahead] at htext hstop ⊢
    rw [denotes_iff htext, htext]
    refine denotes_decimal hd (.digit hd hpieces) hstop ?_ hconv
    rintro ⟨rfl, hoctal⟩
    refine hstart ⟨by rw [htext]; rfl, .inr ?_⟩
    rw [htext]
    cases u with
    | nil => cases hoctal
    | cons o u => exact hoctal

/-- The number twelve, before a semicolon -/
theorem readNumber_denotes_iff_twelve :
    ∃ s', readNumber 8 id { blank with currdata := '1', source := [50, 59] } =
        .ok TK_INTEGER s' ∧
      ((∃ text, ['1', '2', ';'] = text ++ s'.ahead ∧ Denotes id text TK_INTEGER s') ↔
        Denotable 64 ['1', '2', ';']) :=
  ⟨_, rfl, readNumber_denotes_iff 8 id (s := { blank with currdata := '1', source := [50, 59] })
    (by decide) rfl⟩

/-- `0x` without digits is read as a number. -/
theorem readNumber_not_denoting :
    ¬∀ (s s' : SQLexer 64 ℚ) (t : ℤ), s.currdata.isDigit = true → readNumber 8 id s = .ok t s' →
      ∃ text, s.ahead = text ++ s'.ahead ∧ Denotes id text t s' := by
  intro h
  obtain ⟨text, htext, hden⟩ :=
    h { blank with currdata := '0', source := [120, 59] } _ TK_INTEGER (by decide) rfl
  have htext' : ['0', 'x'] ++ [';'] = text ++ [';'] := htext
  obtain rfl := List.append_cancel_right htext'
  obtain ⟨n, hn, -⟩ := denotes_integer_iff.mp hden
  exact ((integerLiteral_hexadecimal (by decide) (List.forall_mem_nil _)).mp hn).1 rfl

end Squirt.SQLexer
