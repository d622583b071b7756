import Mathlib.Data.List.TakeWhile
import Squirt.NumberTexts
import Squirt.StringFormat

/-!
# `format` and its buffers

A conversion overruns a buffer when its text is a little too long for it, and it is read past the
terminator when its flags end the format string.
-/

namespace Squirt.Format

open Programs Programs.Program
open SQLexer (takeWhile_run dropWhile_run)

/-! ### Conversions -/

/-- A conversion without its `%`, and what comes behind its width and precision -/
structure Conversion where
  flags : List Char
  width : List Char
  /-- the digits behind a dot -/
  precision : Option (List Char)
  rest : List Char

def conversion (u : List Char) : Conversion :=
  let r := u.dropWhile isFlag
  let r' := r.dropWhile Char.isDigit
  if r'.head? = some '.' then
    ⟨u.takeWhile isFlag, r.takeWhile Char.isDigit, some (r'.tail.takeWhile Char.isDigit),
      r'.tail.dropWhile Char.isDigit⟩
  else ⟨u.takeWhile isFlag, r.takeWhile Char.isDigit, none, r'⟩

namespace Conversion

def precisionDigits (c : Conversion) : List Char := c.precision.getD []

/-- The text of the conversion up to its character -/
def text (c : Conversion) : List Char :=
  c.flags ++ c.width ++ (match c.precision with | none => [] | some ds => '.' :: ds)

/-- The width and the precision are short enough for their buffer. -/
def ShortDigits (c : Conversion) : Prop :=
  c.width.length < maxWFormatLen ∧ c.precisionDigits.length < maxWFormatLen

/-- The text is too long for its buffer, with the `%`, the character of the conversion, the
terminator and the length modifier of an integer. -/
def LongText (sq64 : Bool) (c : Conversion) : Prop :=
  maxFormatLen < c.text.length + 3 ∨
    sq64 = true ∧ (∃ k ∈ integerConversions, c.rest.head? = some k) ∧
      maxFormatLen < c.text.length + 3 + printIntPrec.length

/-- A buffer is too short for the conversion. -/
def OverLong (sq64 : Bool) (c : Conversion) : Prop := ¬c.ShortDigits ∨ c.LongText sq64

/-- The flags end the format string, or the text is longer than the buffer for it but not as long
as is refused. -/
def Overruns (sq64 : Bool) (c : Conversion) : Prop :=
  (c.width = [] ∧ c.precision = none ∧ c.rest = []) ∨
    c.ShortDigits ∧ c.text.length ≤ maxFormatLen ∧ c.LongText sq64

variable {F : Type}

/-- A parameter is of a type for a conversion. -/
def Takes (k : Char) (param : Param F) : Prop :=
  match param with
  | .string _ => k = 's'
  | .integer _ | .float _ => k ∈ integerConversions ∨ k = 'c' ∨ k ∈ floatConversions
  | .other => False

/-- The conversion is done with a parameter. -/
def Accepts (c : Conversion) (param : Param F) : Prop :=
  c.ShortDigits ∧ c.text.length ≤ maxFormatLen ∧ ∃ k, c.rest.head? = some k ∧ Takes k param

/-- What is done with a parameter and does not overrun is not too long. -/
theorem Accepts.not_overLong {sq64 : Bool} {c : Conversion} {param : Param F}
    (h : c.Accepts param) (hno : ¬c.Overruns sq64) : ¬c.OverLong sq64 := by
  rintro (hdigits | hlong)
  · exact hdigits h.1
  · exact hno (.inr ⟨h.1, h.2.1, hlong⟩)

end Conversion

/-- A conversion of the text with a property is reached: the conversions before it are done, and
it has a parameter. -/
inductive Reached {F : Type} (P : Conversion → Prop) : List Char → List (Param F) → Prop
  | literal {c : Char} {u : List Char} {params : List (Param F)} (hc : c ≠ '%')
    (h : Reached P u params) : Reached P (c :: u) params
  | percent {u : List Char} {params : List (Param F)} (h : Reached P u params) :
    Reached P ('%' :: '%' :: u) params
  | here {u : List Char} {param : Param F} {params : List (Param F)} (hu : u.head? ≠ some '%')
    (h : P (conversion u)) : Reached P ('%' :: u) (param :: params)
  | later {u : List Char} {param : Param F} {params : List (Param F)} (hu : u.head? ≠ some '%')
    (h : (conversion u).Accepts param) (hrest : Reached P (conversion u).rest.tail params) :
    Reached P ('%' :: u) (param :: params)

/-- A conversion that overruns a buffer is reached. -/
def OverrunReached {F : Type} (sq64 : Bool) (u : List Char) (params : List (Param F)) : Prop :=
  Reached (Conversion.Overruns sq64) u params

/-- A conversion that is too long for its buffers is reached. -/
def OverLongReached {F : Type} (sq64 : Bool) (u : List Char) (params : List (Param F)) : Prop :=
  Reached (Conversion.OverLong sq64) u params

/-- The width and the precision that a format asks for -/
def fieldWidth (fmt : List Char) : ℕ :=
  atoi (conversion fmt.tail).width + atoi (conversion fmt.tail).precisionDigits

/-- The text of a single conversion with a short width and precision, as `snprintf` is given it -/
def Specification (modifier : List Char) (k : Char) (fmt : List Char) : Prop :=
  NUL ∉ fmt ∧ ∃ u, (conversion u).ShortDigits ∧ fmt = '%' :: ((conversion u).text ++ (modifier ++ [k]))

/-- How much `snprintf` prints at most in a conversion -/
structure Library.Bounded {F : Type} (L : Library F) : Prop where
  integer : ∀ fmt i, ∀ k ∈ 'c' :: integerConversions,
    Specification [] k fmt ∨ Specification printIntPrec k fmt →
      (L.snprintf fmt (.integer i)).length ≤ fieldWidth fmt + additionalFormatSpace
  float : ∀ fmt f, ∀ k ∈ floatConversions, Specification [] k fmt →
    (L.snprintf fmt (.float f)).length ≤ fieldWidth fmt + additionalFormatSpace
  string : ∀ fmt s, Specification [] 's' fmt →
    (L.snprintf fmt (.string s)).length ≤ s.length + fieldWidth fmt

/-- What is claimed of a call: it does not leave the format string or a buffer, it has a result or
an error, and an error when it comes to a conversion that is too long. -/
def StaysInBuffers {F : Type} (L : Library F) (sq64 : Bool) (format : FormatString)
    (params : List (Param F)) : Prop :=
  match sqstdFormat L sq64 format params with
  | .ok _ _ => ¬OverLongReached sq64 format.text.chars params
  | .error (.raised (.error _)) _ => True
  | .error (.raised .outside) _ => False
  | .error .outOfFuel _ => False

/-! ### Reading the format string -/

variable {F : Type} {L : Library F} {sq64 : Bool} {format : FormatString} {s : Pad} {n : ℕ}
  {u : List Char}

theorem charAt_ok (hn : n ≤ format.text.chars.length) (hu : format.text.chars.drop n = u) :
    charAt format n s = .ok (u.head?.getD NUL) s := by
  subst hu
  rw [charAt]
  split
  · rename_i hlt
    rw [List.head?_drop, List.getElem?_eq_getElem hlt, List.getD_eq_getElem?_getD,
      List.getElem?_eq_getElem hlt]
    rfl
  · rename_i hge
    rw [if_pos (by omega), List.drop_of_length_le (by omega)]
    rfl

private theorem charAt_outside (hn : format.text.chars.length < n) :
    charAt format n s = .error (.raised .outside) s := by
  rw [charAt, if_neg (by omega), if_neg (by omega)]
  rfl

theorem drop_succ {c : Char} (hu : format.text.chars.drop n = c :: u) :
    n + 1 ≤ format.text.chars.length ∧ format.text.chars.drop (n + 1) = u := by
  have hlen := congrArg List.length hu
  rw [List.length_drop, List.length_cons] at hlen
  refine ⟨by omega, ?_⟩
  rw [← List.tail_drop, hu, List.tail_cons]

private theorem ne_nul {c : Char} (hu : format.text.chars.drop n = c :: u) : c ≠ NUL := by
  rintro rfl
  have hmem : NUL ∈ format.text.chars.drop n := by
    rw [hu]
    exact List.mem_cons_self
  exact format.text.noNul (List.mem_of_mem_drop hmem)

/-- The flags are passed, and the terminator with them when they end the string. -/
theorem flagsLoop_ok {fuel : ℕ} (hn : n ≤ format.text.chars.length)
    (hu : format.text.chars.drop n = u) (hrest : u.dropWhile isFlag ≠ []) (hfuel : u.length < fuel) :
    flagsLoop format fuel n s = .ok (n + (u.takeWhile isFlag).length) s := by
  induction u generalizing n fuel with
  | nil => exact absurd rfl hrest
  | cons c u ih =>
    obtain ⟨fuel, rfl⟩ : ∃ k, fuel = k + 1 := ⟨fuel - 1, by omega⟩
    obtain ⟨hn', hu'⟩ := drop_succ hu
    rw [flagsLoop, bind_ok (charAt_ok hn hu)]
    by_cases hc : isFlag c = true
    · rw [List.dropWhile_cons_of_pos hc] at hrest
      rw [List.length_cons] at hfuel
      refine (congrFun (if_pos hc) s).trans ((ih hn' hu' hrest (by omega)).trans ?_)
      rw [List.takeWhile_cons_of_pos hc, List.length_cons, Nat.add_assoc, Nat.add_comm 1]
    · rw [List.takeWhile_cons_of_neg hc]
      exact congrFun (if_neg hc) s

private theorem flagsLoop_outside {fuel : ℕ} (hn : n ≤ format.text.chars.length)
    (hu : format.text.chars.drop n = u) (hrest : u.dropWhile isFlag = [])
    (hfuel : u.length + 2 ≤ fuel) :
    flagsLoop format fuel n s = .error (.raised .outside) s := by
  induction u generalizing n fuel with
  | nil =>
    obtain ⟨fuel, rfl⟩ : ∃ k, fuel = k + 2 := ⟨fuel - 2, by omega⟩
    have hlen := List.drop_eq_nil_iff.mp hu
    have hflag : isFlag NUL = true := by decide
    rw [flagsLoop, bind_ok (charAt_ok hn hu)]
    refine (congrFun (if_pos hflag) s).trans ?_
    rw [flagsLoop, bind_error (charAt_outside (by omega))]
  | cons c u ih =>
    obtain ⟨fuel, rfl⟩ : ∃ k, fuel = k + 1 := ⟨fuel - 1, by omega⟩
    obtain ⟨hn', hu'⟩ := drop_succ hu
    have hc : isFlag c = true := by
      by_contra hc
      rw [List.dropWhile_cons_of_neg hc] at hrest
      cases hrest
    rw [List.dropWhile_cons_of_pos hc] at hrest
    rw [flagsLoop, bind_ok (charAt_ok hn hu)]
    refine (congrFun (if_pos hc) s).trans (ih hn' hu' hrest ?_)
    rw [List.length_cons] at hfuel
    omega

private theorem isDigit_nul : ¬NUL.isDigit = true := by decide

/-- The buffer holds fewer than three digits. -/
theorem digitsLoop_ok {fuel : ℕ} (message : String) (swidth : List Char)
    (hn : n ≤ format.text.chars.length) (hu : format.text.chars.drop n = u)
    (hshort : swidth.length + (u.takeWhile Char.isDigit).length < maxWFormatLen)
    (hfuel : u.length < fuel) :
    digitsLoop format message fuel n swidth s =
      .ok (n + (u.takeWhile Char.isDigit).length, swidth ++ u.takeWhile Char.isDigit) s := by
  induction u generalizing n fuel swidth with
  | nil =>
    obtain ⟨fuel, rfl⟩ : ∃ k, fuel = k + 1 := ⟨fuel - 1, by omega⟩
    have hroom : ¬maxWFormatLen ≤ swidth.length := by
      rw [List.takeWhile_nil, List.length_nil] at hshort
      omega
    rw [digitsLoop, bind_ok (charAt_ok hn hu), List.takeWhile_nil, List.append_nil]
    exact (congrFun (if_neg isDigit_nul) s).trans (congrFun (if_neg hroom) s)
  | cons c u ih =>
    obtain ⟨fuel, rfl⟩ : ∃ k, fuel = k + 1 := ⟨fuel - 1, by omega⟩
    obtain ⟨hn', hu'⟩ := drop_succ hu
    rw [digitsLoop, bind_ok (charAt_ok hn hu)]
    by_cases hc : c.isDigit = true
    · rw [List.takeWhile_cons_of_pos hc, List.length_cons] at hshort
      rw [List.length_cons] at hfuel
      have hroom : ¬maxWFormatLen ≤ swidth.length := by omega
      have hroom' : ¬maxWFormatLen ≤ swidth.length + 1 := by omega
      have hlen : (swidth ++ [c]).length = swidth.length + 1 := List.length_append
      refine (congrFun (if_pos hc) s).trans ((congrFun (if_neg hroom) s).trans
        ((congrFun (if_neg hroom') s).trans ((ih (swidth ++ [c]) hn' hu' (by omega) (by omega)).trans ?_)))
      rw [List.takeWhile_cons_of_pos hc, List.length_cons, List.append_assoc, Nat.add_assoc,
        Nat.add_comm 1]
      rfl
    · rw [List.takeWhile_cons_of_neg hc, List.length_nil] at hshort
      have hroom : ¬maxWFormatLen ≤ swidth.length := by omega
      rw [List.takeWhile_cons_of_neg hc, List.append_nil]
      exact (congrFun (if_neg hc) s).trans (congrFun (if_neg hroom) s)

theorem digitsLoop_error {fuel : ℕ} (message : String) (swidth : List Char)
    (hn : n ≤ format.text.chars.length) (hu : format.text.chars.drop n = u)
    (hswidth : swidth.length < maxWFormatLen)
    (hlong : maxWFormatLen ≤ swidth.length + (u.takeWhile Char.isDigit).length)
    (hfuel : u.length < fuel) :
    digitsLoop format message fuel n swidth s = .error (.raised (.error message)) s := by
  induction u generalizing n fuel swidth with
  | nil =>
    rw [List.takeWhile_nil, List.length_nil] at hlong
    omega
  | cons c u ih =>
    obtain ⟨fuel, rfl⟩ : ∃ k, fuel = k + 1 := ⟨fuel - 1, by omega⟩
    obtain ⟨hn', hu'⟩ := drop_succ hu
    rw [digitsLoop, bind_ok (charAt_ok hn hu)]
    by_cases hc : c.isDigit = true
    · rw [List.takeWhile_cons_of_pos hc, List.length_cons] at hlong
      rw [List.length_cons] at hfuel
      have hroom : ¬maxWFormatLen ≤ swidth.length := by omega
      have hlen : (swidth ++ [c]).length = swidth.length + 1 := List.length_append
      refine (congrFun (if_pos hc) s).trans ((congrFun (if_neg hroom) s).trans ?_)
      by_cases hroom' : maxWFormatLen ≤ swidth.length + 1
      · exact congrFun (if_pos hroom') s
      · exact (congrFun (if_neg hroom') s).trans (ih (swidth ++ [c]) hn' hu' (by omega) (by omega) (by omega))
    · rw [List.takeWhile_cons_of_neg hc, List.length_nil] at hlong
      omega

/-! ### What `validate_format` does with a conversion -/

theorem conversion_text_rest (u : List Char) :
    (conversion u).text ++ (conversion u).rest = u := by
  have hflags := List.takeWhile_append_dropWhile (p := isFlag) (l := u)
  have hwidth := List.takeWhile_append_dropWhile (p := Char.isDigit) (l := u.dropWhile isFlag)
  rw [conversion, Conversion.text]
  by_cases hdot : ((u.dropWhile isFlag).dropWhile Char.isDigit).head? = some '.'
  · rw [if_pos hdot]
    have hcons : '.' :: ((u.dropWhile isFlag).dropWhile Char.isDigit).tail =
        (u.dropWhile isFlag).dropWhile Char.isDigit := List.cons_head?_tail hdot
    simp only [List.append_assoc, List.cons_append, List.takeWhile_append_dropWhile]
    rw [hcons, hwidth, hflags]
  · rw [if_neg hdot]
    simp only [List.append_assoc, List.nil_append]
    rw [hwidth, hflags]

theorem drop_append {v : List Char} (hn : n ≤ format.text.chars.length)
    (hu : format.text.chars.drop n = u ++ v) :
    n + u.length ≤ format.text.chars.length ∧ format.text.chars.drop (n + u.length) = v := by
  have hlen := congrArg List.length hu
  rw [List.length_drop, List.length_append] at hlen
  refine ⟨by omega, ?_⟩
  rw [← List.drop_drop, hu, List.drop_left]

/-- What is copied to the buffer: the text of a conversion, and its character -/
theorem take_copied {v : List Char} (hn : n ≤ format.text.chars.length)
    (hu : format.text.chars.drop n = u ++ v) :
    ((format.text.chars ++ [NUL]).drop n).take (n + u.length - n + 1) =
      u ++ [v.head?.getD NUL] := by
  rw [List.drop_append_of_le_length hn, hu, List.append_assoc, Nat.add_sub_cancel_left,
    List.take_length_add_append]
  cases v with
  | nil => rfl
  | cons c v => rfl

/-- The end of `validate_format`: the text of a conversion is refused, or it fits, or it overruns
the buffer. -/
theorem copyFormat_ok {v : List Char} {w : ℕ} (hn : n ≤ format.text.chars.length)
    (hu : format.text.chars.drop n = u ++ v) (hfits : u.length + 3 ≤ maxFormatLen) :
    copyFormat format n (n + u.length) w s =
      .ok ('%' :: (u ++ [v.head?.getD NUL]) ++ [NUL], n + u.length, w) s := by
  rw [copyFormat, if_neg (by omega), take_copied hn hu]
  refine congrFun (if_neg ?_) s
  rw [List.length_append, List.length_singleton]
  omega

private theorem copyFormat_outside {v : List Char} {w : ℕ} (hn : n ≤ format.text.chars.length)
    (hu : format.text.chars.drop n = u ++ v) (hlong : maxFormatLen < u.length + 3)
    (haccepted : u.length ≤ maxFormatLen) :
    copyFormat format n (n + u.length) w s = .error (.raised .outside) s := by
  rw [copyFormat, if_neg (by omega), take_copied hn hu]
  refine congrFun (if_pos ?_) s
  rw [List.length_append, List.length_singleton]
  omega

private theorem copyFormat_error {w : ℕ} (hlong : maxFormatLen < u.length) :
    copyFormat format n (n + u.length) w s = .error (.raised (.error "format too long")) s := by
  rw [copyFormat, if_pos (by omega)]
  rfl

private theorem validateFormat_outside (hn : n ≤ format.text.chars.length)
    (hu : format.text.chars.drop n = u) (hflags : u.dropWhile isFlag = []) :
    validateFormat format n s = .error (.raised .outside) s := by
  have hlen := congrArg List.length hu
  rw [List.length_drop] at hlen
  exact bind_error (flagsLoop_outside hn hu hflags (by omega))

theorem conversion_dot
    (hdot : ((u.dropWhile isFlag).dropWhile Char.isDigit).head? = some '.') : conversion u =
      ⟨u.takeWhile isFlag, (u.dropWhile isFlag).takeWhile Char.isDigit,
        some (((u.dropWhile isFlag).dropWhile Char.isDigit).tail.takeWhile Char.isDigit),
        ((u.dropWhile isFlag).dropWhile Char.isDigit).tail.dropWhile Char.isDigit⟩ :=
  if_pos hdot

theorem conversion_no_dot
    (hdot : ((u.dropWhile isFlag).dropWhile Char.isDigit).head? ≠ some '.') : conversion u =
      ⟨u.takeWhile isFlag, (u.dropWhile isFlag).takeWhile Char.isDigit, none,
        (u.dropWhile isFlag).dropWhile Char.isDigit⟩ :=
  if_neg hdot

private theorem conversion_width (u : List Char) :
    (conversion u).width = (u.dropWhile isFlag).takeWhile Char.isDigit := by
  by_cases hdot : ((u.dropWhile isFlag).dropWhile Char.isDigit).head? = some '.'
  · rw [conversion_dot hdot]
  · rw [conversion_no_dot hdot]

private theorem validatePrecision_dot {m : ℕ} {width : ℕ} (hm : m ≤ format.text.chars.length)
    (hu : format.text.chars.drop m = u) (hdot : u.head? = some '.')
    (hshort : (u.tail.takeWhile Char.isDigit).length < maxWFormatLen) :
    validatePrecision format n m width s =
      copyFormat format n (m + 1 + (u.tail.takeWhile Char.isDigit).length)
        (width + atoi (u.tail.takeWhile Char.isDigit)) s := by
  have hcons : u = '.' :: u.tail := (List.cons_head?_tail hdot).symm
  obtain ⟨hm', hu'⟩ := drop_succ (hu.trans hcons)
  have hlen := congrArg List.length hu'
  rw [List.length_drop] at hlen
  have hdigits := digitsLoop_ok (s := s) "precision format too long" [] hm' hu'
    (by rwa [List.length_nil, Nat.zero_add])
    (show u.tail.length < format.text.chars.length + 2 by omega)
  refine (bind_ok (charAt_ok hm hu)).trans ?_
  rw [hdot]
  exact bind_ok hdigits

private theorem validatePrecision_error {m : ℕ} {width : ℕ} (hm : m ≤ format.text.chars.length)
    (hu : format.text.chars.drop m = u) (hdot : u.head? = some '.')
    (hlong : maxWFormatLen ≤ (u.tail.takeWhile Char.isDigit).length) :
    validatePrecision format n m width s =
      .error (.raised (.error "precision format too long")) s := by
  have hcons : u = '.' :: u.tail := (List.cons_head?_tail hdot).symm
  obtain ⟨hm', hu'⟩ := drop_succ (hu.trans hcons)
  have hlen := congrArg List.length hu'
  rw [List.length_drop] at hlen
  have hdigits := digitsLoop_error (s := s) "precision format too long" [] hm' hu' (by decide)
    (by rwa [List.length_nil, Nat.zero_add])
    (show u.tail.length < format.text.chars.length + 2 by omega)
  refine (bind_ok (charAt_ok hm hu)).trans ?_
  rw [hdot]
  exact bind_error hdigits

private theorem validatePrecision_none {m : ℕ} {width : ℕ} (hm : m ≤ format.text.chars.length)
    (hu : format.text.chars.drop m = u) (hdot : u.head? ≠ some '.') :
    validatePrecision format n m width s = copyFormat format n m width s := by
  refine (bind_ok (charAt_ok hm hu)).trans (congrFun (if_neg ?_) s)
  cases u with
  | nil => exact (by decide : ¬NUL = '.')
  | cons c u => exact fun heq => hdot (congrArg some heq)

/-- Behind the flags, `validate_format` comes to the end of the conversion, or it finds too many
digits. -/
theorem validateFormat_cases (hn : n ≤ format.text.chars.length)
    (hu : format.text.chars.drop n = u) (hflags : u.dropWhile isFlag ≠ []) :
    ((conversion u).ShortDigits ∧
      validateFormat format n s = copyFormat format n (n + (conversion u).text.length)
        (atoi (conversion u).width + atoi (conversion u).precisionDigits) s) ∨
    (¬(conversion u).ShortDigits ∧
      ∃ message, validateFormat format n s = .error (.raised (.error message)) s) := by
  have hlen := congrArg List.length hu
  rw [List.length_drop] at hlen
  have hok := flagsLoop_ok (s := s) hn hu hflags
    (show u.length < format.text.chars.length + 2 by omega)
  obtain ⟨hn₁, hu₁⟩ := drop_append hn (hu.trans List.takeWhile_append_dropWhile.symm)
  have hlen₁ := congrArg List.length hu₁
  rw [List.length_drop] at hlen₁
  have hsplit := List.takeWhile_append_dropWhile (p := Char.isDigit) (l := u.dropWhile isFlag)
  obtain ⟨hn₂, hu₂⟩ := drop_append hn₁ (hu₁.trans hsplit.symm)
  by_cases hwidth : ((u.dropWhile isFlag).takeWhile Char.isDigit).length < maxWFormatLen
  · have hdigits := digitsLoop_ok (s := s) "width format too long" [] hn₁ hu₁
      (by rwa [List.length_nil, Nat.zero_add])
      (show (u.dropWhile isFlag).length < format.text.chars.length + 2 by omega)
    have hrun : validateFormat format n s = validatePrecision format n _ (atoi _) s :=
      (bind_ok hok).trans (bind_ok hdigits)
    rw [hrun]
    by_cases hdot : ((u.dropWhile isFlag).dropWhile Char.isDigit).head? = some '.'
    · by_cases hprecision : (((u.dropWhile isFlag).dropWhile Char.isDigit).tail.takeWhile
          Char.isDigit).length < maxWFormatLen
      · refine .inl ⟨?_, ?_⟩
        · rw [conversion_dot hdot]
          exact ⟨hwidth, hprecision⟩
        · rw [validatePrecision_dot hn₂ hu₂ hdot hprecision, conversion_dot hdot]
          simp only [Conversion.text, Conversion.precisionDigits, List.length_append,
            List.length_cons, Option.getD_some, List.nil_append]
          congr 1
          omega
      · refine .inr ⟨fun hshort => hprecision ?_, _, validatePrecision_error hn₂ hu₂ hdot (by omega)⟩
        rw [conversion_dot hdot] at hshort
        exact hshort.2
    · refine .inl ⟨?_, ?_⟩
      · rw [conversion_no_dot hdot]
        exact ⟨hwidth, (by decide : 0 < maxWFormatLen)⟩
      · rw [validatePrecision_none hn₂ hu₂ hdot, conversion_no_dot hdot]
        simp only [Conversion.text, Conversion.precisionDigits, List.length_append,
          List.append_nil, Option.getD_none, List.nil_append]
        rw [Nat.add_assoc]
        rfl
  · refine .inr ⟨fun hshort => hwidth ?_, "width format too long", ?_⟩
    · rw [← conversion_width]
      exact hshort.1
    · have hdigits := digitsLoop_error (s := s) "width format too long" [] hn₁ hu₁ (by decide)
        (by rw [List.length_nil, Nat.zero_add]; omega)
        (show (u.dropWhile isFlag).length < format.text.chars.length + 2 by omega)
      exact (bind_ok hok).trans (bind_error hdigits)

/-! ### What is printed -/

private theorem any_head_dropWhile (p : Char → Bool) (u : List Char) :
    (u.dropWhile p).head?.any p = false := by
  have hnot := List.head?_dropWhile_not p u
  cases h : (u.dropWhile p).head? with
  | none => rfl
  | some c =>
    rw [h] at hnot
    exact hnot

/-- A character that ends a conversion -/
def Ends (t : List Char) : Prop :=
  t.head?.any isFlag = false ∧ t.head?.any Char.isDigit = false ∧ t.head? ≠ some '.'

/-- The parts of a conversion are made of their characters. -/
structure Conversion.WellFormed (c : Conversion) : Prop where
  flags : ∀ x ∈ c.flags, isFlag x = true
  width : ∀ x ∈ c.width, x.isDigit = true
  head : c.width.head?.any isFlag = false
  precision : ∀ x ∈ c.precisionDigits, x.isDigit = true

theorem conversion_wellFormed (u : List Char) : (conversion u).WellFormed := by
  have hhead : ((u.dropWhile isFlag).takeWhile Char.isDigit).head?.any isFlag = false := by
    have hany := any_head_dropWhile isFlag u
    generalize u.dropWhile isFlag = r at hany
    cases r with
    | nil => rfl
    | cons c r =>
      by_cases hc : c.isDigit = true
      · rw [List.takeWhile_cons_of_pos hc]
        exact hany
      · rw [List.takeWhile_cons_of_neg hc]
        rfl
  by_cases hdot : ((u.dropWhile isFlag).dropWhile Char.isDigit).head? = some '.'
  · rw [conversion_dot hdot]
    exact ⟨fun x hx => List.mem_takeWhile_imp hx, fun x hx => List.mem_takeWhile_imp hx, hhead,
      fun x hx => List.mem_takeWhile_imp hx⟩
  · rw [conversion_no_dot hdot]
    exact ⟨fun x hx => List.mem_takeWhile_imp hx, fun x hx => List.mem_takeWhile_imp hx, hhead,
      fun x hx => by cases hx⟩

/-- A conversion is read back from its text. -/
theorem Conversion.WellFormed.conversion_eq {c : Conversion} (h : c.WellFormed)
    (hrest : Ends c.rest) :
    conversion (c.text ++ c.rest) = c := by
  obtain ⟨flags, width, precision, rest⟩ := c
  obtain ⟨hflags, hwidth, hhead, hprecision⟩ := h
  cases precision with
  | none =>
    have hbehind : (width ++ rest).head?.any isFlag = false := by
      cases width with
      | nil => exact hrest.1
      | cons c width => exact hhead
    have htext : Conversion.text ⟨flags, width, none, rest⟩ ++ rest = flags ++ (width ++ rest) := by
      rw [Conversion.text, List.append_nil, List.append_assoc]
    have hdrop := dropWhile_run hflags hbehind
    have hdrop' := dropWhile_run hwidth hrest.2.1
    rw [htext, conversion_no_dot (by rw [hdrop, hdrop']; exact hrest.2.2), hdrop, hdrop',
      takeWhile_run hflags hbehind, takeWhile_run hwidth hrest.2.1]
  | some ds =>
    change ∀ x ∈ ds, x.isDigit = true at hprecision
    have hbehind : (width ++ '.' :: (ds ++ rest)).head?.any isFlag = false := by
      cases width with
      | nil => rfl
      | cons c width => exact hhead
    have htext : Conversion.text ⟨flags, width, some ds, rest⟩ ++ rest =
        flags ++ (width ++ '.' :: (ds ++ rest)) := by
      rw [Conversion.text, List.append_assoc, List.append_assoc, List.cons_append]
    have hdigit : ('.' :: (ds ++ rest)).head?.any Char.isDigit = false := rfl
    have hdrop := dropWhile_run hflags hbehind
    have hdrop' := dropWhile_run hwidth hdigit
    rw [htext, conversion_dot (by rw [hdrop, hdrop']; rfl), hdrop, hdrop',
      takeWhile_run hflags hbehind, takeWhile_run hwidth hdigit, List.tail_cons,
      takeWhile_run hprecision hrest.2.1, dropWhile_run hprecision hrest.2.1]

/-- The width and the precision of a conversion are the ones of its text, whatever character ends
it. -/
theorem fieldWidth_text {t : List Char} (u : List Char) (ht : Ends t) :
    fieldWidth ('%' :: ((conversion u).text ++ t)) =
      atoi (conversion u).width + atoi (conversion u).precisionDigits := by
  obtain ⟨hflags, hwidth, hhead, hprecision⟩ := conversion_wellFormed u
  have hform : Conversion.WellFormed { conversion u with rest := t } :=
    ⟨hflags, hwidth, hhead, hprecision⟩
  have heq := hform.conversion_eq ht
  change conversion ((conversion u).text ++ t) = _ at heq
  rw [fieldWidth, List.tail_cons, heq]
  rfl

theorem ends_of_mem {k : Char} {t : List Char}
    (hk : k ∈ 'l' :: 's' :: 'c' :: integerConversions ++ floatConversions) : Ends (k :: t) := by
  have hall : ('l' :: 's' :: 'c' :: integerConversions ++ floatConversions).all fun k =>
      !isFlag k && !k.isDigit && k != '.' := by decide
  have hends := List.all_eq_true.mp hall k hk
  simp only [Bool.and_eq_true, Bool.not_eq_true', bne_iff_ne] at hends
  exact ⟨hends.1.1, hends.1.2, fun heq => hends.2 (Option.some.inj heq)⟩

def buffer (c : Conversion) (k : Char) : List Char := '%' :: (c.text ++ [k]) ++ [NUL]

theorem cstr_append_nul {v w : List Char} (hv : NUL ∉ v) : cstr (v ++ NUL :: w) = v := by
  rw [cstr, List.takeWhile_append_of_pos fun x hx => decide_eq_true (ne_of_mem_of_not_mem hx hv)]
  exact List.append_nil v

/-- A call leaves its buffers just when `R` holds; then it ends there. -/
def Fails (R : Prop) (e : Stop FormatError) (_ : Pad) : Prop :=
  match e with
  | .raised (.error _) => ¬R
  | .raised .outside => R
  | .outOfFuel => False

theorem cstr_buffer {c : Conversion} {k : Char} (hnul : NUL ∉ c.text ++ [k]) :
    cstr (buffer c k) = '%' :: (c.text ++ [k]) := by
  refine cstr_append_nul ?_
  rw [List.mem_cons, not_or]
  exact ⟨by decide, hnul⟩

/-- The buffer with the length modifier in it, when it has room for it -/
theorem spliceIntPrec_eq {c : Conversion} {k : Char} (hnul : NUL ∉ c.text ++ [k]) :
    spliceIntPrec (buffer c k) = if maxFormatLen < c.text.length + 3 + printIntPrec.length
      then Program.raise .outside
      else pure ('%' :: (c.text ++ printIntPrec ++ [k]) ++ NUL ::
        (buffer c k).drop (c.text.length + 3 + printIntPrec.length)) := by
  have hlen : (buffer c k).takeWhile (· ≠ NUL) = '%' :: (c.text ++ [k]) := cstr_buffer hnul
  have hsplit : buffer c k = ('%' :: c.text) ++ k :: [NUL] := by
    rw [buffer, List.cons_append, List.append_assoc]
    rfl
  have hlength : ('%' :: c.text).length = c.text.length + 1 := List.length_cons
  have htake : (buffer c k).take (c.text.length + 1) = '%' :: c.text := by
    rw [hsplit, ← hlength, List.take_left]
  have hget : (buffer c k).getD (c.text.length + 1) NUL = k := by
    rw [hsplit, ← hlength, List.getD_eq_getElem?_getD, List.getElem?_append_right (Nat.le_refl _),
      Nat.sub_self]
    rfl
  have hpos : ('%' :: (c.text ++ [k])).length - 1 = c.text.length + 1 := by
    rw [List.length_cons, List.length_append, List.length_singleton, Nat.add_sub_cancel]
  have hspliced : ('%' :: c.text ++ printIntPrec ++ [k, NUL]).length =
      c.text.length + 3 + printIntPrec.length := by
    rw [List.length_append, List.length_append, List.length_cons, List.length_cons,
      List.length_singleton]
    omega
  rw [spliceIntPrec, hlen, hpos, htake, hget, hspliced]
  simp only [List.append_assoc, List.cons_append, List.nil_append]

def Param.Numeric : Param F → Prop
  | .integer _ => True
  | .float _ => True
  | _ => False

private theorem getInteger_ok {param : Param F} (message : String) (h : param.Numeric) :
    ∃ i, getInteger L message param s = .ok (.integer i) s := by
  cases param with
  | integer i => exact ⟨i, rfl⟩
  | float f => exact ⟨L.tointeger f, rfl⟩
  | string => exact h.elim
  | other => exact h.elim

private theorem getFloat_ok {param : Param F} (message : String) (h : param.Numeric) :
    ∃ f, getFloat L message param s = .ok (.float f) s := by
  cases param with
  | integer i => exact ⟨L.tofloat i, rfl⟩
  | float f => exact ⟨f, rfl⟩
  | string => exact h.elim
  | other => exact h.elim

private theorem getInteger_error {param : Param F} (message : String) (h : ¬param.Numeric) :
    getInteger L message param s = .error (.raised (.error message)) s := by
  cases param with
  | integer => exact absurd trivial h
  | float => exact absurd trivial h
  | string => rfl
  | other => rfl

private theorem getFloat_error {param : Param F} (message : String) (h : ¬param.Numeric) :
    getFloat L message param s = .error (.raised (.error message)) s := by
  cases param with
  | integer => exact absurd trivial h
  | float => exact absurd trivial h
  | string => rfl
  | other => rfl

/-- The characters that convert numbers -/
def numericConversions : List Char := 'c' :: integerConversions ++ floatConversions

theorem mem_numericConversions {k : Char} : k ∈ numericConversions ↔
    k ∈ integerConversions ∨ k = 'c' ∨ k ∈ floatConversions := by
  rw [numericConversions, List.cons_append, List.mem_cons, List.mem_append]
  exact or_left_comm

/-- A conversion prints a string, or a number. -/
theorem takes_iff {k : Char} {param : Param F} : Conversion.Takes k param ↔
    (k = 's' ∧ ∃ x, param = .string x) ∨ (k ∈ numericConversions ∧ param.Numeric) := by
  rw [mem_numericConversions]
  cases param with
  | string x => exact ⟨fun h => .inl ⟨h, x, rfl⟩, fun h => (h.resolve_right fun h => h.2).1⟩
  | integer i =>
    refine ⟨fun h => .inr ⟨h, trivial⟩, fun h => (h.resolve_left ?_).1⟩
    rintro ⟨-, x, heq⟩
    cases heq
  | float f =>
    refine ⟨fun h => .inr ⟨h, trivial⟩, fun h => (h.resolve_left ?_).1⟩
    rintro ⟨-, x, heq⟩
    cases heq
  | other =>
    refine iff_of_false id ?_
    rintro (⟨-, x, heq⟩ | h)
    · cases heq
    · exact h.2

private theorem takes_iff_numeric {k : Char} {param : Param F} (hk : k ∈ numericConversions) :
    Conversion.Takes k param ↔ param.Numeric := by
  have hs : k ≠ 's' := by
    rintro rfl
    exact absurd hk (by decide)
  rw [takes_iff, or_iff_right fun h => hs h.1, and_iff_right hk]

/-- What is printed fits in what is requested for it. -/
def Fitting (L : Library F) (res : ℕ × List Char × Value F) : Prop :=
  (L.snprintf (cstr res.2.1) res.2.2).length ≤ res.1

private theorem mem_numeric_ends {k : Char} (hk : k ∈ numericConversions) (t : List Char) : Ends
    (k :: t) := by
  refine ends_of_mem ?_
  rw [numericConversions] at hk
  exact List.mem_cons_of_mem _ (List.mem_cons_of_mem _ hk)

/-- Where the text of a conversion fits, only the length modifier can be too much. -/
theorem Conversion.overruns_iff {c : Conversion} {k : Char} (hk : c.rest.head?.getD NUL = k)
    (hend : ¬(c.width = [] ∧ c.precision = none ∧ c.rest = [])) (hshort : c.ShortDigits)
    (hfits : c.text.length + 3 ≤ maxFormatLen) : c.Overruns sq64 ↔
      sq64 = true ∧ k ∈ integerConversions ∧ maxFormatLen < c.text.length + 3 + printIntPrec.length := by
  have hnul : NUL ∉ integerConversions := by decide
  constructor
  · intro h
    obtain ⟨-, -, hlong⟩ := h.resolve_left hend
    obtain ⟨hsq64, ⟨i, hi, hhead⟩, hlong⟩ := hlong.resolve_left (by omega)
    rw [hhead, Option.getD_some] at hk
    exact ⟨hsq64, hk ▸ hi, hlong⟩
  · rintro ⟨hsq64, hmem, hlong⟩
    refine .inr ⟨hshort, by omega, .inr ⟨hsq64, ⟨k, hmem, ?_⟩, hlong⟩⟩
    cases hhead : c.rest.head? with
    | none =>
      rw [hhead, Option.getD_none] at hk
      exact absurd (hk ▸ hmem) hnul
    | some i =>
      rw [hhead, Option.getD_some] at hk
      exact congrArg some hk

section Convert

variable {R : Prop} {param : Param F} {k : Char}

/-- A number is printed, or the parameter is none. -/
theorem outcome_number {fmt : List Char} {w : ℕ} {y : Formatter (Value F)}
    (hvalue : param.Numeric → ∃ v, y s = .ok v s ∧
      (L.snprintf (cstr fmt) v).length ≤ w + additionalFormatSpace)
    (herror : ¬param.Numeric → ∃ message, y s = .error (.raised (.error message)) s)
    (hrefused : ¬param.Numeric → ¬R) :
    Outcome s (do
      let value ← y
      return (additionalFormatSpace + (w + 1), fmt, value))
      (fun res s' => s' = s ∧ param.Numeric ∧ Fitting L res) (Fails R) := by
  by_cases hnumeric : param.Numeric
  · obtain ⟨v, hv, hlen⟩ := hvalue hnumeric
    refine Outcome.afterOk hv (outcome_pure ⟨rfl, hnumeric, ?_⟩)
    change (L.snprintf (cstr fmt) v).length ≤ additionalFormatSpace + (w + 1)
    omega
  · obtain ⟨message, hmessage⟩ := herror hnumeric
    exact Outcome.afterError hmessage (hrefused hnumeric)

private theorem outcome_string (hL : L.Bounded) {fmt : List Char}
    (hform : Specification [] 's' (cstr fmt))
    (hrefused : (¬∃ x, param = .string x) → ¬R) :
    Outcome s (do
      let x ← getString "string expected for the specified format" param
      return (x.length + (fieldWidth (cstr fmt) + 1), fmt, .string x))
      (fun res s' => s' = s ∧ (∃ x, param = .string x) ∧ Fitting L res) (Fails R) := by
  by_cases hstring : ∃ x, param = .string x
  · obtain ⟨x, rfl⟩ := hstring
    have hbound := hL.string (cstr fmt) x hform
    have hgot : getString "string expected for the specified format" (.string x : Param F) s =
        .ok x s := rfl
    refine Outcome.afterOk hgot (outcome_pure ⟨rfl, ⟨x, rfl⟩, ?_⟩)
    change (L.snprintf (cstr fmt) (.string x)).length ≤ x.length + (_ + 1)
    omega
  · have herror : getString "string expected for the specified format" param s =
        .error (.raised (.error "string expected for the specified format")) s := by
      cases param with
      | string x => exact absurd ⟨x, rfl⟩ hstring
      | integer => rfl
      | float => rfl
      | other => rfl
    exact Outcome.afterError herror (hrefused hstring)

theorem outcome_integer (hL : L.Bounded) {fmt : List Char} (hk : k ∈ 'c' :: integerConversions)
    (hform : Specification [] k (cstr fmt) ∨ Specification printIntPrec k (cstr fmt))
    (hrefused : ¬param.Numeric → ¬R) :
    Outcome s (do
      let value ← getInteger L "integer expected for the specified format" param
      return (additionalFormatSpace + (fieldWidth (cstr fmt) + 1), fmt, value))
      (fun res s' => s' = s ∧ param.Numeric ∧ Fitting L res) (Fails R) := by
  refine outcome_number (fun h => ?_) (fun h => ⟨_, getInteger_error _ h⟩) hrefused
  obtain ⟨i, hi⟩ := getInteger_ok (L := L) (s := s) "integer expected for the specified format" h
  exact ⟨_, hi, hL.integer _ _ k hk hform⟩

private theorem outcome_float (hL : L.Bounded) {fmt : List Char} (hk : k ∈ floatConversions)
    (hform : Specification [] k (cstr fmt)) (hrefused : ¬param.Numeric → ¬R) :
    Outcome s (do
      let value ← getFloat L "float expected for the specified format" param
      return (additionalFormatSpace + (fieldWidth (cstr fmt) + 1), fmt, value))
      (fun res s' => s' = s ∧ param.Numeric ∧ Fitting L res) (Fails R) := by
  refine outcome_number (fun h => ?_) (fun h => ⟨_, getFloat_error _ h⟩) hrefused
  obtain ⟨f, hf⟩ := getFloat_ok (L := L) (s := s) "float expected for the specified format" h
  exact ⟨_, hf, hL.float _ _ k hk hform⟩

private theorem not_mem_spliced {c : Conversion} (hnul : NUL ∉ c.text ++ [k]) :
    NUL ∉ '%' :: (c.text ++ (printIntPrec ++ [k])) := by
  rw [List.mem_append, not_or] at hnul
  rw [List.mem_cons, List.mem_append, List.mem_append]
  rintro (h | h | h | h)
  · exact absurd h (by decide)
  · exact hnul.1 h
  · exact absurd h (by decide)
  · exact hnul.2 h

private theorem cstr_spliced {c : Conversion} (hnul : NUL ∉ c.text ++ [k]) (rest : List Char) :
    cstr ('%' :: (c.text ++ printIntPrec ++ [k]) ++ NUL :: rest) =
      '%' :: (c.text ++ (printIntPrec ++ [k])) := by
  rw [List.append_assoc c.text, cstr_append_nul (not_mem_spliced hnul)]

/-- A conversion with its parameter: it is refused, or its buffer is overrun, or what is printed
fits in the scratch pad. -/
theorem outcome_convert (u : List Char) (hL : L.Bounded) (hnul : NUL ∉ (conversion u).text ++ [k])
    (hk : (conversion u).rest.head?.getD NUL = k)
    (hend : ¬((conversion u).width = [] ∧ (conversion u).precision = none ∧
      (conversion u).rest = [])) (hshort : (conversion u).ShortDigits)
    (hfits : (conversion u).text.length + 3 ≤ maxFormatLen)
    (hover : (conversion u).Overruns sq64 → R)
    (hrefused : ¬(conversion u).Overruns sq64 → ¬Conversion.Takes k param → ¬R) :
    Outcome s (convert L sq64 k (buffer (conversion u) k)
        (atoi (conversion u).width + atoi (conversion u).precisionDigits) param)
      (fun res s' => s' = s ∧ ¬(conversion u).Overruns sq64 ∧ Conversion.Takes k param ∧
        Fitting L res) (Fails R) := by
  have hoverruns : (conversion u).Overruns sq64 ↔ _ :=
    Conversion.overruns_iff hk hend hshort hfits
  have hcstr := cstr_buffer hnul
  have hspec : Specification [] k (cstr (buffer (conversion u) k)) := by
    rw [hcstr]
    exact ⟨fun hmem => hnul ((List.mem_cons.mp hmem).resolve_left (by decide)), u, hshort, rfl⟩
  have hwidth : Ends [k] → fieldWidth (cstr (buffer (conversion u) k)) =
      atoi (conversion u).width + atoi (conversion u).precisionDigits := fun hends => by
    rw [hcstr, fieldWidth_text u hends]
  rw [convert]
  by_cases hs : k = 's'
  · rw [if_pos hs]
    have hno : ¬(conversion u).Overruns sq64 := by
      rw [hoverruns, hs]
      exact fun h => absurd h.2.1 (by decide)
    have htakes : Conversion.Takes k param ↔ ∃ x, param = .string x := by
      rw [takes_iff]
      refine ⟨fun h => (h.resolve_right fun h => ?_).2, fun h => .inl ⟨hs, h⟩⟩
      rw [hs] at h
      exact absurd h.1 (by decide)
    rw [← hwidth (ends_of_mem (by rw [hs]; decide))]
    exact (outcome_string hL (hs ▸ hspec) fun h => hrefused hno (mt htakes.mp h)).mono
      fun res s' hres => ⟨hres.1, hno, htakes.mpr hres.2.1, hres.2.2⟩
  rw [if_neg hs]
  by_cases hint : k ∈ integerConversions
  · rw [if_pos hint]
    have hnumeric : k ∈ numericConversions := List.mem_cons_of_mem _ (List.mem_append_left _ hint)
    have htakes : Conversion.Takes k param ↔ param.Numeric := takes_iff_numeric hnumeric
    -- the value is got when the buffer is complete
    have hvalue : ∀ fmt t, cstr fmt = '%' :: ((conversion u).text ++ t) → Ends t →
        Specification [] k (cstr fmt) ∨ Specification printIntPrec k (cstr fmt) →
        ¬(conversion u).Overruns sq64 → Outcome s (do
          let value ← getInteger L "integer expected for the specified format" param
          return (additionalFormatSpace + (atoi (conversion u).width +
            atoi (conversion u).precisionDigits + 1), fmt, value))
        (fun res s' => s' = s ∧ ¬(conversion u).Overruns sq64 ∧ Conversion.Takes k param ∧
          Fitting L res) (Fails R) := by
      intro fmt t hfmt ht hform hno
      rw [← fieldWidth_text u ht, ← hfmt]
      exact (outcome_integer hL (List.mem_cons_of_mem _ hint) hform
        fun h => hrefused hno (mt htakes.mp h)).mono
          fun res s' hres => ⟨hres.1, hno, htakes.mpr hres.2.1, hres.2.2⟩
    extract_lets rest
    by_cases hsq64 : sq64 = true
    · rw [if_pos hsq64]
      have hsplice := spliceIntPrec_eq (c := conversion u) hnul
      by_cases hlong : maxFormatLen < (conversion u).text.length + 3 + printIntPrec.length
      · rw [if_pos hlong] at hsplice
        rw [hsplice]
        exact outcome_of_error rfl (hover (hoverruns.mpr ⟨hsq64, hint, hlong⟩))
      · rw [if_neg hlong] at hsplice
        rw [hsplice]
        have hcstr' := cstr_spliced hnul ((buffer (conversion u) k).drop
          ((conversion u).text.length + 3 + printIntPrec.length))
        refine hvalue _ (printIntPrec ++ [k]) hcstr' (ends_of_mem (by decide)) (.inr ?_) ?_
        · rw [hcstr']
          exact ⟨not_mem_spliced hnul, u, hshort, rfl⟩
        · rw [hoverruns]
          exact fun h => hlong h.2.2
    · rw [if_neg hsq64]
      refine hvalue _ _ hcstr (mem_numeric_ends hnumeric []) (.inl hspec) ?_
      rw [hoverruns]
      exact fun h => hsq64 h.1
  rw [if_neg hint]
  have hno : ¬(conversion u).Overruns sq64 := by
    rw [hoverruns]
    exact fun h => hint h.2.1
  by_cases hc : k = 'c'
  · rw [if_pos hc]
    have hnumeric : k ∈ numericConversions := by
      rw [hc]
      exact List.mem_cons_self
    have htakes : Conversion.Takes k param ↔ param.Numeric := takes_iff_numeric hnumeric
    rw [← hwidth (mem_numeric_ends hnumeric [])]
    exact (outcome_integer hL (hc ▸ List.mem_cons_self) (.inl hspec)
      fun h => hrefused hno (mt htakes.mp h)).mono
        fun res s' hres => ⟨hres.1, hno, htakes.mpr hres.2.1, hres.2.2⟩
  rw [if_neg hc]
  by_cases hfloat : k ∈ floatConversions
  · rw [if_pos hfloat]
    have hnumeric : k ∈ numericConversions :=
      List.mem_cons_of_mem _ (List.mem_append_right _ hfloat)
    have htakes : Conversion.Takes k param ↔ param.Numeric := takes_iff_numeric hnumeric
    rw [← hwidth (mem_numeric_ends hnumeric [])]
    exact (outcome_float hL hfloat hspec fun h => hrefused hno (mt htakes.mp h)).mono
      fun res s' hres => ⟨hres.1, hno, htakes.mpr hres.2.1, hres.2.2⟩
  · rw [if_neg hfloat]
    refine outcome_of_error rfl (hrefused hno fun htakes => ?_)
    have hnumeric := ((takes_iff.mp htakes).resolve_left fun h => hs h.1).1
    exact (mem_numericConversions.mp hnumeric).elim hint fun h => h.elim hc hfloat

end Convert

/-! ### The loop -/

section Reached

variable {P : Conversion → Prop} {param : Param F} {params : List (Param F)} {c : Char}

private theorem reached_nil : ¬Reached P [] params := by
  intro h
  cases h

private theorem reached_literal (hc : c ≠ '%') :
    Reached P (c :: u) params ↔ Reached P u params := by
  refine ⟨fun h => ?_, .literal hc⟩
  cases h with
  | literal _ h => exact h
  | percent => exact absurd rfl hc
  | here => exact absurd rfl hc
  | later => exact absurd rfl hc

private theorem reached_percent :
    Reached P ('%' :: '%' :: u) params ↔ Reached P u params := by
  refine ⟨fun h => ?_, .percent⟩
  cases h with
  | literal hc => exact absurd rfl hc
  | percent h => exact h
  | here hu => exact absurd rfl hu
  | later hu => exact absurd rfl hu

private theorem reached_no_params (hu : u.head? ≠ some '%') :
    ¬Reached P ('%' :: u) ([] : List (Param F)) := by
  intro h
  cases h with
  | literal hc => exact absurd rfl hc
  | percent => exact hu rfl

private theorem reached_conversion (hu : u.head? ≠ some '%') :
    Reached P ('%' :: u) (param :: params) ↔ P (conversion u) ∨
      (conversion u).Accepts param ∧ Reached P (conversion u).rest.tail params := by
  refine ⟨fun h => ?_, fun h => ?_⟩
  · cases h with
    | literal hc => exact absurd rfl hc
    | percent => exact absurd rfl hu
    | here _ h => exact .inl h
    | later _ h hrest => exact .inr ⟨h, hrest⟩
  · rcases h with h | ⟨h, hrest⟩
    · exact .here hu h
    · exact .later hu h hrest

theorem Reached.mono {P' : Conversion → Prop} (h : Reached P u params) (hP : ∀ c, P c → P' c) :
    Reached P' u params := by
  induction h with
  | literal hc _ ih => exact .literal hc ih
  | percent _ ih => exact .percent ih
  | here hu h => exact .here hu (hP _ h)
  | later hu h _ ih => exact .later hu h ih

end Reached

/-- What a call that has a result does not come to -/
def Conversion.Bad (sq64 : Bool) (c : Conversion) : Prop := c.Overruns sq64 ∨ c.OverLong sq64

private theorem conversion_flags_end (u : List Char) : ((conversion u).width = [] ∧
    (conversion u).precision = none ∧ (conversion u).rest = []) ↔ u.dropWhile isFlag = [] := by
  have hsplit := conversion_text_rest u
  constructor
  · rintro ⟨hwidth, hprecision, hrest⟩
    rw [hrest, List.append_nil, Conversion.text, hwidth, hprecision, List.append_nil,
      List.append_nil] at hsplit
    rw [← hsplit, List.dropWhile_eq_nil_iff]
    exact (conversion_wellFormed u).flags
  · intro hflags
    rw [conversion_no_dot (by rw [hflags]; exact Option.some_ne_none _ |>.symm), hflags]
    exact ⟨rfl, rfl, rfl⟩

private theorem outcome_put {c : Char} {y : Formatter Unit} {Q : Unit → Pad → Prop}
    {E : Stop FormatError → Pad → Prop} (hroom : s.i < s.allocated)
    (hy : Outcome { s with i := s.i + 1, dest := s.dest ++ [c] } y Q E) :
    Outcome s (put c >>= fun _ => y) Q E := by
  have hput : put c s = .ok () { s with i := s.i + 1, dest := s.dest ++ [c] } :=
    (bind_ok rfl).trans (congrFun (if_pos hroom) s)
  exact Outcome.afterOk hput hy

private theorem outcome_print {text : List Char} {y : Formatter Unit} {Q : Unit → Pad → Prop}
    {E : Stop FormatError → Pad → Prop} (hroom : s.i ≤ s.allocated)
    (hy : ∀ s', s'.i = s.i + text.length → s'.allocated = s.allocated → Outcome s' y Q E) :
    Outcome s (print text >>= fun _ => y) Q E := by
  have hprint : print text s = .ok () { s with
      i := s.i + text.length, dest := s.dest ++ text.take (s.allocated - s.i - 1) } :=
    (bind_ok rfl).trans (congrFun (if_pos hroom) s)
  exact Outcome.afterOk hprint (hy _ rfl rfl)

/-- A conversion is done, and the rest of the string is left for the loop, or the call ends here. -/
theorem outcome_conversion {params : List (Param F)} {param : Param F}
    {rest : ℕ → Formatter Unit} (hL : L.Bounded) (hn : n ≤ format.text.chars.length)
    (hu : format.text.chars.drop n = u) (hroom : s.i + u.length + 3 ≤ s.allocated)
    (hrest : ∀ {s' : Pad} {n' : ℕ} {u' : List Char}, n' ≤ format.text.chars.length →
      format.text.chars.drop n' = u' → s'.i + u'.length + 2 ≤ s'.allocated → u'.length ≤ u.length →
      Outcome s' (rest n') (fun _ s' => ¬Reached (Conversion.Bad sq64) u' params ∧ s'.i < s'.allocated)
        (Fails (OverrunReached sq64 u' params))) :
    Outcome s (do
      let (fmt, n, w) ← validateFormat format n
      let (addlen, fmt, value) ← convert L sq64 (← charAt format n) fmt w param
      modify fun s => { s with allocated := s.allocated + (addlen + 1) }
      print (L.snprintf (cstr fmt) value)
      rest (n + 1))
      (fun _ s' => ¬((conversion u).Bad sq64 ∨ (conversion u).Accepts param ∧
        Reached (Conversion.Bad sq64) (conversion u).rest.tail params) ∧ s'.i < s'.allocated)
      (Fails ((conversion u).Overruns sq64 ∨
        (conversion u).Accepts param ∧ OverrunReached sq64 (conversion u).rest.tail params)) := by
  have hend := conversion_flags_end u
  by_cases hflags : u.dropWhile isFlag = []
  · exact Outcome.afterError (validateFormat_outside hn hu hflags) (.inl (.inl (hend.mpr hflags)))
  · rcases validateFormat_cases (s := s) hn hu hflags with ⟨hshort, hrun⟩ | ⟨hshort, message, hrun⟩
    · have hu₁ : format.text.chars.drop n = (conversion u).text ++ (conversion u).rest :=
        hu.trans (conversion_text_rest u).symm
      by_cases hrefused : maxFormatLen < (conversion u).text.length
      · refine Outcome.afterError (hrun.trans (copyFormat_error hrefused)) ?_
        rintro (hover | haccepts)
        · have hshorter := (hover.resolve_left (mt hend.mp hflags)).2.1
          omega
        · have hshorter := haccepts.1.2.1
          omega
      · by_cases hlong : maxFormatLen < (conversion u).text.length + 3
        · refine Outcome.afterError (hrun.trans (copyFormat_outside hn hu₁ hlong (by omega))) ?_
          exact .inl (.inr ⟨hshort, by omega, .inl hlong⟩)
        · refine Outcome.afterOk (hrun.trans (copyFormat_ok hn hu₁ (by omega))) ?_
          obtain ⟨hn₂, hu₂⟩ := drop_append hn hu₁
          refine Outcome.afterOk (charAt_ok hn₂ hu₂) ?_
          cases hkv : (conversion u).rest with
          | nil =>
            refine outcome_of_error rfl ?_
            rintro (hover | haccepts)
            · obtain ⟨-, -, hlong'⟩ := hover.resolve_left (mt hend.mp hflags)
              obtain ⟨-, ⟨k, -, hk⟩, -⟩ := hlong'.resolve_left hlong
              rw [hkv] at hk
              cases hk
            · obtain ⟨k, hk, -⟩ := haccepts.1.2.2
              rw [hkv] at hk
              cases hk
          | cons k v =>
            rw [hkv] at hu₁ hu₂
            have hlen := congrArg List.length (hu.symm.trans hu₁)
            rw [List.length_append, List.length_cons] at hlen
            obtain ⟨hn₃, hu₃⟩ := drop_succ hu₂
            have hnul : NUL ∉ (conversion u).text ++ [k] := by
              intro hmem
              refine format.text.noNul (List.mem_of_mem_drop (i := n) ?_)
              rw [hu₁, List.mem_append]
              rw [List.mem_append, List.mem_singleton] at hmem
              exact hmem.imp_right fun heq => List.mem_cons.mpr (.inl heq)
            have hk : (conversion u).rest.head? = some k := by
              rw [hkv]
              rfl
            refine (outcome_convert u hL hnul (by rw [hk]; rfl) (mt hend.mp hflags) hshort
              (by omega) .inl fun hno htakes => ?_).bind fun res s' hres => ?_
            · rintro (hover | haccepts)
              · exact hno hover
              · obtain ⟨k', hk', hktakes⟩ := haccepts.1.2.2
                rw [hk, Option.some.injEq] at hk'
                rw [hk'] at htakes
                exact htakes hktakes
            · obtain ⟨rfl, hno, htakes, hfits⟩ := hres
              have haccepts : (conversion u).Accepts param := ⟨hshort, by omega, k, hk, htakes⟩
              rw [Fitting] at hfits
              have hgood : ¬(conversion u).Bad sq64 := not_or.mpr ⟨hno, haccepts.not_overLong hno⟩
              rw [or_iff_right hno, or_iff_right hgood, and_iff_right haccepts, and_iff_right haccepts]
              have hpad : s'.i ≤ s'.allocated + (res.1 + 1) := by omega
              refine Outcome.afterOk (a := ⟨⟩) rfl (outcome_print hpad fun s₁ hi hallocated => ?_)
              have hi' : s₁.i = s'.i + (L.snprintf (cstr res.2.1) res.2.2).length := hi
              have hallocated' : s₁.allocated = s'.allocated + (res.1 + 1) := hallocated
              have hroom₁ : s₁.i + v.length + 2 ≤ s₁.allocated := by omega
              have hshorter : v.length ≤ u.length := by omega
              exact hrest hn₃ hu₃ hroom₁ hshorter
    · refine Outcome.afterError hrun ?_
      rintro (hover | haccepts)
      · exact hshort (hover.resolve_left (mt hend.mp hflags)).1
      · exact hshort haccepts.1.1

/-- The pad has room for what is left of the format string and for a terminator. -/
theorem outcome_formatLoop {fuel : ℕ} {params : List (Param F)} (hL : L.Bounded)
    (hn : n ≤ format.text.chars.length) (hu : format.text.chars.drop n = u)
    (hroom : s.i + u.length + 2 ≤ s.allocated) (hfuel : u.length < fuel) :
    Outcome s (formatLoop L sq64 format fuel n params)
      (fun _ s' => ¬Reached (Conversion.Bad sq64) u params ∧ s'.i < s'.allocated)
      (Fails (OverrunReached sq64 u params)) := by
  induction fuel generalizing n u s params with
  | zero => omega
  | succ fuel ih =>
    unfold formatLoop
    refine Outcome.afterOk (charAt_ok hn hu) ?_
    cases u with
    | nil =>
      refine (if_pos (rfl : ([] : List Char).head?.getD NUL = NUL)) ▸ outcome_pure ⟨reached_nil, ?_⟩
      omega
    | cons c u =>
      have hc := ne_nul hu
      obtain ⟨hn', hu'⟩ := drop_succ hu
      rw [List.length_cons] at hroom hfuel
      rw [List.head?_cons, Option.getD_some, if_neg hc]
      by_cases hliteral : c ≠ '%'
      · rw [if_pos hliteral, OverrunReached, reached_literal hliteral, reached_literal hliteral]
        refine outcome_put (by omega) (ih hn' hu' ?_ (by omega))
        change s.i + 1 + u.length + 2 ≤ s.allocated
        omega
      · rw [if_neg hliteral]
        obtain rfl := not_not.mp hliteral
        refine Outcome.afterOk (charAt_ok hn' hu') ?_
        by_cases hpercent : u.head? = some '%'
        · obtain ⟨v, rfl⟩ : ∃ v, u = '%' :: v := ⟨u.tail, (List.cons_head?_tail hpercent).symm⟩
          obtain ⟨hn'', hu''⟩ := drop_succ hu'
          rw [List.length_cons] at hroom hfuel
          rw [List.head?_cons, Option.getD_some, if_pos rfl, OverrunReached, reached_percent,
            reached_percent]
          refine outcome_put (by omega) (ih hn'' hu'' ?_ (by omega))
          change s.i + 1 + v.length + 2 ≤ s.allocated
          omega
        · have hnot : ¬u.head?.getD NUL = '%' := by
            cases u with
            | nil => decide
            | cons c u => exact fun heq => hpercent (congrArg some heq)
          rw [if_neg hnot]
          cases params with
          | nil => exact outcome_of_error rfl (reached_no_params hpercent)
          | cons param params =>
            rw [OverrunReached, reached_conversion hpercent, reached_conversion hpercent]
            exact outcome_conversion hL hn' hu' (by omega) fun hn₁ hu₁ hroom₁ hlen₁ =>
              ih hn₁ hu₁ hroom₁ (by omega)

private theorem outcome_format (hL : L.Bounded) (sq64 : Bool) (format : FormatString)
    (params : List (Param F)) :
    Outcome { allocated := format.size + 2, i := 0, dest := [] } (do
      formatLoop L sq64 format (format.text.chars.length + 1) 0 params
      let s ← get
      if s.i < s.allocated then return (s.dest, s.i)
      else Program.raise .outside)
      (fun _ _ => ¬Reached (Conversion.Bad sq64) format.text.chars params)
      (Fails (OverrunReached sq64 format.text.chars params)) := by
  have hsize := format.fits
  have hroom : 0 + format.text.chars.length + 2 ≤ format.size + 2 := by omega
  refine (outcome_formatLoop hL (Nat.zero_le _) List.drop_zero hroom (Nat.lt_succ_self _)).bind
    fun _ s₁ h₁ => outcome_getBind ?_
  rw [if_pos h₁.2]
  exact outcome_pure h₁.1

/-- A call leaves the format string or a buffer just when an overrun is reached. -/
theorem format_stays_in_buffers_iff {F : Type} (L : Library F) (hL : L.Bounded) (sq64 : Bool)
    (format : FormatString) (params : List (Param F)) :
    StaysInBuffers L sq64 format params ↔ ¬OverrunReached sq64 format.text.chars params := by
  have hformat := outcome_format hL sq64 format params
  rw [StaysInBuffers]
  cases hrun : sqstdFormat L sq64 format params with
  | ok res s =>
    have hgood := hformat.of_ok hrun
    exact iff_of_true (fun h => hgood (h.mono fun _ => .inr)) fun h => hgood (h.mono fun _ => .inl)
  | error e s =>
    have hfails := hformat.of_error hrun
    cases e with
    | outOfFuel => exact hfails.elim
    | raised e =>
      cases e with
      | error message => exact iff_of_true trivial hfails
      | outside => exact iff_of_false id (not_not.mpr hfails)

/-- A library that prints integers, to some length -/
def decimalLibrary : Library ℤ where
  tointeger f := f
  tofloat i := i
  snprintf _ v :=
    match v with
    | .integer i => ((toString i).toList).take additionalFormatSpace
    | _ => []

private theorem decimalLibrary_bounded : decimalLibrary.Bounded where
  integer _ _ _ _ _ := (List.length_take_le _ _).trans (Nat.le_add_left _ _)
  float _ _ _ _ _ := Nat.zero_le _
  string _ _ _ := Nat.zero_le _

theorem format_stays_in_buffers_iff_seven :
    decimalLibrary.Bounded ∧
      (StaysInBuffers decimalLibrary true ⟨⟨['%', 'd'], by decide⟩, 2, by decide⟩ [.integer 7] ↔
        ¬OverrunReached true ['%', 'd'] ([.integer 7] : List (Param ℤ))) :=
  ⟨decimalLibrary_bounded, format_stays_in_buffers_iff _ decimalLibrary_bounded _ _ _⟩

/-- A lone `%` is read past its terminator; a conversion with 18 flags overruns its buffer. -/
theorem format_leaves_buffers :
    ¬StaysInBuffers decimalLibrary true ⟨⟨['%'], by decide⟩, 1, by decide⟩ [.integer 7] ∧
      ¬StaysInBuffers decimalLibrary true
        ⟨⟨'%' :: List.replicate 18 '-' ++ ['d'], by decide⟩, 20, by decide⟩ [.integer 7] :=
  ⟨fun h => h, fun h => h⟩

end Squirt.Format
