import Mathlib.Data.Nat.Digits.Defs
import Squirt.Lexer

/-!
# The texts of numbers

The literals of integers and floats, with their values, and how far a text can be read as one.
-/

namespace Squirt.SQLexer

variable {w : ℕ} {c d : Char} {cs ds u v : List Char}

/-- The number that digits in base `b` stand for -/
def digitsValue (b : ℕ) (ds : List Char) : ℕ := Nat.ofDigits b (ds.reverse.map digitValue)

inductive IntegerLiteral : List Char → ℕ → Prop
  | decimal {d : Char} {ds : List Char} (hds : ∀ c ∈ d :: ds, c.isDigit = true)
      (hoctal : ¬(d = '0' ∧ ds.head?.any scisodigit = true)) :
      IntegerLiteral (d :: ds) (digitsValue 10 (d :: ds))
  | octal {ds : List Char} (hne : ds ≠ []) (hds : ∀ c ∈ ds, scisodigit c = true) :
      IntegerLiteral ('0' :: ds) (digitsValue 8 ds)
  | hexadecimal {x : Char} {ds : List Char} (hx : x.toUpper = 'X') (hne : ds ≠ [])
      (hds : ∀ c ∈ ds, isxdigit c = true) : IntegerLiteral ('0' :: x :: ds) (digitsValue 16 ds)

/-- A point and its digits, when there is one -/
inductive Fraction : List Char → List Char → Prop
  | none : Fraction [] []
  | point {ds : List Char} (hds : ∀ c ∈ ds, c.isDigit = true) : Fraction ('.' :: ds) ds

/-- An exponent, when there is one -/
inductive Exponent : List Char → ℤ → Prop
  | none : Exponent [] 0
  | bare {e : Char} {ds : List Char} (he : isexponent e = true) (hne : ds ≠ [])
      (hds : ∀ c ∈ ds, c.isDigit = true) : Exponent (e :: ds) (digitsValue 10 ds)
  | plus {e : Char} {ds : List Char} (he : isexponent e = true) (hne : ds ≠ [])
      (hds : ∀ c ∈ ds, c.isDigit = true) : Exponent (e :: '+' :: ds) (digitsValue 10 ds)
  | minus {e : Char} {ds : List Char} (he : isexponent e = true) (hne : ds ≠ [])
      (hds : ∀ c ∈ ds, c.isDigit = true) : Exponent (e :: '-' :: ds) (-digitsValue 10 ds)

/-- The texts of floats: with a point, with an exponent, or with both -/
inductive FloatLiteral : List Char → ℚ → Prop
  | mk {int frac digits exp : List Char} {e : ℤ} (hne : int ≠ [])
      (hint : ∀ c ∈ int, c.isDigit = true) (hfrac : Fraction frac digits) (hexp : Exponent exp e)
      (hsome : frac ++ exp ≠ []) :
      FloatLiteral (int ++ (frac ++ exp)) (digitsValue 10 (int ++ digits) * 10 ^ (e - digits.length))

/-! ### How far a text can be read -/

/-- The number goes on with a point or an exponent. -/
def goesOn (cs : List Char) : Bool := cs.head?.any fun c => c = '.' || isexponent c

def afterFraction (cs : List Char) : List Char :=
  if cs.head? = some '.' then cs.tail.dropWhile Char.isDigit else cs

def dropSign (cs : List Char) : List Char :=
  if cs.head? = some '+' ∨ cs.head? = some '-' then cs.tail else cs

def afterExponent (cs : List Char) : List Char :=
  if cs.head?.any isexponent then (dropSign cs.tail).dropWhile Char.isDigit else cs

/-- What follows the digits, a fraction and an exponent -/
def afterNumber (cs : List Char) : List Char :=
  afterExponent (afterFraction (cs.dropWhile Char.isDigit))

/-- The text does not begin with a hexadecimal number without digits, with an integer that is too
large, or with a float that goes on after its fraction and its exponent. -/
def Denotable (w : ℕ) (cs : List Char) : Prop :=
  if cs.head? = some '0' ∧ cs.tail.head?.any (·.toUpper = 'X') then
    (cs.drop 2).takeWhile isxdigit ≠ [] ∧
      digitsValue 16 ((cs.drop 2).takeWhile isxdigit) < 2 ^ (w - 1)
  else if cs.head? = some '0' ∧ cs.tail.head?.any scisodigit then
    digitsValue 8 (cs.tail.takeWhile scisodigit) < 2 ^ (w - 1)
  else if goesOn (cs.dropWhile Char.isDigit) then goesOn (afterNumber cs) = false
  else digitsValue 10 (cs.takeWhile Char.isDigit) < 2 ^ (w - 1)

/-! ### Values -/

theorem foldl_digits (b : ℕ) (ds : List Char) (n : ℕ) :
    ds.foldl (fun n c => n * b + digitValue c) n = n * b ^ ds.length + digitsValue b ds := by
  induction ds generalizing n with
  | nil => simp [digitsValue]
  | cons d ds ih =>
    rw [List.foldl_cons, ih, digitsValue, digitsValue, List.reverse_cons, List.map_append,
      Nat.ofDigits_append, List.length_map, List.length_reverse, List.length_cons, pow_succ]
    simp only [List.map_cons, List.map_nil, Nat.ofDigits_singleton]
    ring

theorem decimalValue_eq (ds : List Char) : decimalValue ds = digitsValue 10 ds := by
  rw [decimalValue, foldl_digits, Nat.zero_mul, Nat.zero_add]

/-- Digits accumulate modulo the size of an integer. -/
theorem foldl_ofNat (b : ℕ) (ds : List Char) (n : ℕ) :
    ds.foldl (fun res c => res * BitVec.ofNat w b + .ofNat w (digitValue c)) (.ofNat w n) =
      .ofNat w (ds.foldl (fun n c => n * b + digitValue c) n) := by
  induction ds generalizing n with
  | nil => rfl
  | cons d ds ih => rw [List.foldl_cons, List.foldl_cons, ← ih, BitVec.ofNat_add, BitVec.ofNat_mul]

theorem foldl_ofNat_zero (b : ℕ) (ds : List Char) :
    ds.foldl (fun res c => res * BitVec.ofNat w b + .ofNat w (digitValue c)) 0 =
      .ofNat w (digitsValue b ds) := by
  have h := foldl_ofNat (w := w) b ds 0
  rwa [foldl_digits, Nat.zero_mul, Nat.zero_add] at h

theorem lexInteger_eq (ds : List Char) : lexInteger ds = BitVec.ofNat w (digitsValue 10 ds) :=
  foldl_ofNat_zero 10 ds

theorem lexOctal_eq (ds : List Char) : lexOctal ds = BitVec.ofNat w (digitsValue 8 ds) :=
  foldl_ofNat_zero 8 ds

theorem lexHexadecimal_eq (ds : List Char) :
    lexHexadecimal ds = BitVec.ofNat w (digitsValue 16 ds) :=
  foldl_ofNat_zero 16 ds

/-- A number is the value of an integer when it fits. -/
theorem toInt_ofNat_eq_iff (n : ℕ) : (BitVec.ofNat w n).toInt = n ↔ n < 2 ^ (w - 1) := by
  rw [BitVec.toInt_ofNat']
  have hpos : 0 < 2 ^ w := Nat.two_pow_pos w
  have hhalf : ((2 ^ w : ℕ) + 1) / 2 = 2 ^ (w - 1) := by
    cases w with
    | zero => rfl
    | succ w =>
      rw [Nat.add_sub_cancel, pow_succ]
      omega
  constructor
  · intro h
    have hlt := Int.bmod_lt (x := n) (m := 2 ^ w) hpos
    rw [h] at hlt
    omega
  · intro h
    exact Int.bmod_eq_of_le (by omega) (by omega)

/-! ### Reading a literal -/

/-- No character of a float follows. -/
def Stops (cs : List Char) : Prop :=
  cs.head?.any (fun c => c = '.' || c.isDigit || isexponent c) = false

theorem goesOn_eq_false_of_stops (h : Stops v) : goesOn v = false := by
  cases v with
  | nil => rfl
  | cons c v =>
    simp only [Stops, List.head?_cons, Option.any_some, Bool.or_eq_false_iff] at h
    simp only [goesOn, List.head?_cons, Option.any_some, h, Bool.or_self]

theorem any_isDigit_of_stops (h : Stops v) : v.head?.any Char.isDigit = false := by
  cases v with
  | nil => rfl
  | cons c v =>
    simp only [Stops, List.head?_cons, Option.any_some, Bool.or_eq_false_iff] at h
    exact h.1.2

theorem isDigit_of_isexponent (h : isexponent c = true) : c.isDigit = false := by
  rw [isexponent, Bool.or_eq_true, decide_eq_true_iff, decide_eq_true_iff] at h
  rcases h with rfl | rfl
  · rfl
  · rfl

theorem any_isDigit_of_goesOn (h : goesOn v = true) : v.head?.any Char.isDigit = false := by
  cases v with
  | nil => rfl
  | cons c v =>
    simp only [goesOn, List.head?_cons, Option.any_some, Bool.or_eq_true, decide_eq_true_iff] at h
    rcases h with rfl | h
    · rfl
    · exact isDigit_of_isexponent h

section Runs

variable {p : Char → Bool}

theorem takeWhile_run (hds : ∀ c ∈ ds, p c = true) (hv : v.head?.any p = false) :
    (ds ++ v).takeWhile p = ds := by
  rw [List.takeWhile_append_of_pos hds]
  cases v with
  | nil => exact List.append_nil ds
  | cons c v =>
    have hc : ¬p c = true := Bool.not_eq_true _ ▸ hv
    rw [List.takeWhile_cons_of_neg hc, List.append_nil]

theorem dropWhile_run (hds : ∀ c ∈ ds, p c = true) (hv : v.head?.any p = false) :
    (ds ++ v).dropWhile p = v := by
  rw [List.dropWhile_append_of_pos hds]
  cases v with
  | nil => rfl
  | cons c v =>
    have hc : ¬p c = true := Bool.not_eq_true _ ▸ hv
    rw [List.dropWhile_cons_of_neg hc]

end Runs

private theorem afterFraction_append {frac : List Char} (hfrac : Fraction frac ds)
    (hv : v.head?.any Char.isDigit = false) (hpoint : frac = [] → v.head? ≠ some '.') :
    afterFraction (frac ++ v) = v := by
  cases hfrac with
  | none => exact if_neg (hpoint rfl)
  | point hds => exact (if_pos rfl).trans (dropWhile_run hds hv)

private theorem dropSign_digits (hne : ds ≠ []) (hds : ∀ c ∈ ds, c.isDigit = true) :
    dropSign (ds ++ v) = ds ++ v := by
  cases ds with
  | nil => exact absurd rfl hne
  | cons d ds =>
    have hd := hds d List.mem_cons_self
    refine if_neg ?_
    rw [List.cons_append, List.head?_cons, Option.some_inj, Option.some_inj]
    rintro (rfl | rfl)
    · cases hd
    · cases hd

private theorem afterExponent_append {exp : List Char} {e : ℤ} (hexp : Exponent exp e)
    (hv : v.head?.any Char.isDigit = false)
    (hnone : exp = [] → v.head?.any isexponent = false) : afterExponent (exp ++ v) = v := by
  cases hexp with
  | none => exact if_neg (ne_true_of_eq_false (hnone rfl))
  | bare he hne hds =>
    refine (if_pos he).trans ?_
    rw [List.cons_append, List.tail_cons, dropSign_digits hne hds]
    exact dropWhile_run hds hv
  | plus he hne hds => exact (if_pos he).trans (dropWhile_run hds hv)
  | minus he hne hds => exact (if_pos he).trans (dropWhile_run hds hv)

theorem Fraction.goesOn {frac : List Char} (h : Fraction frac ds) :
    frac = [] ∨ goesOn frac = true := by
  cases h with
  | none => exact .inl rfl
  | point hds => exact .inr rfl

theorem Exponent.goesOn {exp : List Char} {e : ℤ} (h : Exponent exp e) :
    exp = [] ∨ goesOn exp = true := by
  have hcons : ∀ {c : Char} (ds : List Char), isexponent c = true → SQLexer.goesOn (c :: ds) = true :=
    fun ds hc => Bool.or_eq_true_iff.mpr (.inr hc)
  cases h with
  | none => exact .inl rfl
  | bare he hne hds => exact .inr (hcons _ he)
  | plus he hne hds => exact .inr (hcons _ he)
  | minus he hne hds => exact .inr (hcons _ he)

theorem any_isDigit_append (hu : u = [] ∨ goesOn u = true) (hv : v.head?.any Char.isDigit = false) :
    (u ++ v).head?.any Char.isDigit = false := by
  cases u with
  | nil => exact hv
  | cons c u => exact any_isDigit_of_goesOn (v := c :: u) (hu.resolve_left (List.cons_ne_nil c u))

/-- A text in parts: digits, a fraction, an exponent and the rest, where the rest begins with none
of the parts that are not there -/
structure Parts (int frac digits exp : List Char) (e : ℤ) (rest : List Char) : Prop where
  integral : ∀ c ∈ int, c.isDigit = true
  fraction : Fraction frac digits
  exponent : Exponent exp e
  remains : rest = [] ∨ goesOn rest = true
  noPoint : frac = [] → (exp ++ rest).head? ≠ some '.'
  noExponent : exp = [] → rest.head?.any isexponent = false

variable {int frac digits exp rest : List Char} {e : ℤ}

theorem Parts.dropWhile (h : Parts int frac digits exp e rest) (hv : Stops v) :
    (int ++ (frac ++ (exp ++ rest)) ++ v).dropWhile Char.isDigit =
      frac ++ (exp ++ (rest ++ v)) := by
  rw [List.append_assoc, List.append_assoc, List.append_assoc]
  refine dropWhile_run h.integral ?_
  exact any_isDigit_append h.fraction.goesOn (any_isDigit_append h.exponent.goesOn
    (any_isDigit_append h.remains (any_isDigit_of_stops hv)))

theorem Parts.afterNumber (h : Parts int frac digits exp e rest) (hv : Stops v) :
    afterNumber (int ++ (frac ++ (exp ++ rest)) ++ v) = rest ++ v := by
  have hrest := any_isDigit_append h.remains (any_isDigit_of_stops hv)
  rw [SQLexer.afterNumber, h.dropWhile hv,
    afterFraction_append h.fraction (any_isDigit_append h.exponent.goesOn hrest),
    afterExponent_append h.exponent hrest]
  · intro hexp
    cases hcases : rest with
    | nil =>
      have hstop := goesOn_eq_false_of_stops hv
      cases v with
      | nil => rfl
      | cons c v =>
        rw [SQLexer.goesOn, List.head?_cons, Option.any_some, Bool.or_eq_false_iff] at hstop
        exact hstop.2
    | cons c rest' =>
      have hhead := h.noExponent hexp
      rw [hcases] at hhead
      exact hhead
  · intro hfrac hpoint
    rw [← List.append_assoc] at hpoint
    have hhead := h.noPoint hfrac
    cases hcases : exp ++ rest with
    | nil =>
      rw [hcases, List.nil_append] at hpoint
      have hstop := goesOn_eq_false_of_stops hv
      rw [SQLexer.goesOn, hpoint] at hstop
      cases hstop
    | cons c rest' =>
      rw [hcases] at hhead hpoint
      exact hhead hpoint

private theorem takeWhile_digits (hds : ∀ c ∈ ds, c.isDigit = true) :
    ds.takeWhile Char.isDigit = ds := by
  have h := takeWhile_run (v := []) hds rfl
  rwa [List.append_nil] at h

private theorem strtodExponent_eq (h : Exponent exp e) : strtodExponent exp = e := by
  cases h with
  | none => rfl
  | @bare e ds he hne hds =>
    refine (if_pos he).trans ?_
    split
    · cases hds '-' List.mem_cons_self
    · cases hds '+' List.mem_cons_self
    · rw [takeWhile_digits hds, decimalValue_eq]
  | @plus e ds he hne hds =>
    refine (if_pos he).trans ?_
    change (decimalValue (ds.takeWhile Char.isDigit) : ℤ) = _
    rw [takeWhile_digits hds, decimalValue_eq]
  | @minus e ds he hne hds =>
    refine (if_pos he).trans ?_
    change -(decimalValue (ds.takeWhile Char.isDigit) : ℤ) = _
    rw [takeWhile_digits hds, decimalValue_eq]

/-- The value that `strtod` converts -/
theorem Parts.scstrtod (h : Parts int frac digits exp e []) :
    scstrtod (int ++ (frac ++ exp)) =
      digitsValue 10 (int ++ digits) * 10 ^ (e - digits.length) := by
  have hexp : exp.head?.any Char.isDigit = false := by
    have hexp := any_isDigit_append h.exponent.goesOn (v := []) rfl
    rwa [List.append_nil] at hexp
  have hhead := any_isDigit_append h.fraction.goesOn hexp
  have hpoint := h.noPoint
  rw [List.append_nil] at hpoint
  rw [Squirt.scstrtod, takeWhile_run h.integral hhead, dropWhile_run h.integral hhead]
  cases h.fraction with
  | none =>
    simp only [List.nil_append, if_neg (hpoint rfl), strtodExponent_eq h.exponent, decimalValue_eq]
  | point hds =>
    simp only [List.cons_append, List.head?_cons, if_true, List.tail_cons, takeWhile_run hds hexp,
      dropWhile_run hds hexp, strtodExponent_eq h.exponent, decimalValue_eq]

/-- A float is a text in parts with nothing after them. -/
theorem FloatLiteral.parts {q : ℚ} (h : FloatLiteral cs q) :
    ∃ (int frac digits exp : List Char) (e : ℤ), Parts int frac digits exp e [] ∧
      cs = int ++ (frac ++ exp) ∧ q = digitsValue 10 (int ++ digits) * 10 ^ (e - digits.length) := by
  cases h with
  | mk hne hint hfrac hexp hsome =>
    refine ⟨_, _, _, _, _, ⟨hint, hfrac, hexp, .inl rfl, fun hnil => ?_, fun _ => rfl⟩, rfl, rfl⟩
    cases hexp with
    | none => exact nofun
    | bare he _ _ => exact fun hc => absurd he (by rw [Option.some_inj.mp hc]; decide)
    | plus he _ _ => exact fun hc => absurd he (by rw [Option.some_inj.mp hc]; decide)
    | minus he _ _ => exact fun hc => absurd he (by rw [Option.some_inj.mp hc]; decide)

theorem FloatLiteral.scstrtod {q : ℚ} (h : FloatLiteral cs q) : scstrtod cs = q := by
  obtain ⟨int, frac, digits, exp, e, hparts, rfl, rfl⟩ := h.parts
  exact hparts.scstrtod

/-! ### What the loop of a number accepts -/

/-- The texts of the loop of `ReadNumber`, from one type to another -/
inductive Pieces : NumberType → List Char → NumberType → Prop
  | done (type : NumberType) : Pieces type [] type
  | digit {type type' : NumberType} {d : Char} {u : List Char} (hd : d.isDigit = true)
      (h : Pieces type u type') : Pieces type (d :: u) type'
  | point {type type' : NumberType} {u : List Char} (h : Pieces .TFLOAT u type') :
      Pieces type ('.' :: u) type'
  | exponent {type type' : NumberType} {e d : Char} {sign u : List Char}
      (he : isexponent e = true) (hsign : sign = [] ∨ sign = ['+'] ∨ sign = ['-'])
      (hd : d.isDigit = true) (h : Pieces .TSCIENTIFIC u type') :
      Pieces type (e :: (sign ++ d :: u)) type'

variable {type type' : NumberType}

theorem Pieces.tint (h : Pieces type u type') (hint : type' = .TINT) :
    type = .TINT ∧ ∀ c ∈ u, c.isDigit = true := by
  induction h with
  | done => exact ⟨hint, fun c hc => by cases hc⟩
  | digit hd h ih => exact ⟨(ih hint).1, List.forall_mem_cons.mpr ⟨hd, (ih hint).2⟩⟩
  | point h ih => cases (ih hint).1
  | exponent he hsign hd h ih => cases (ih hint).1

private theorem Pieces.of_digits (h : Pieces type u type') (hu : ∀ c ∈ u, c.isDigit = true) :
    type' = type := by
  induction h with
  | done => rfl
  | digit hd h ih => exact ih fun c hc => hu c (List.mem_cons_of_mem _ hc)
  | point h ih => cases hu '.' List.mem_cons_self
  | exponent he hsign hd h ih =>
    cases (isDigit_of_isexponent he).symm.trans (hu _ List.mem_cons_self)

theorem Pieces.type_cases (h : Pieces type u type') :
    type' = type ∨ type' = .TFLOAT ∨ type' = .TSCIENTIFIC := by
  induction h with
  | done => exact .inl rfl
  | digit hd h ih => exact ih
  | point h ih => exact .inr (ih.elim .inl id)
  | exponent he hsign hd h ih => exact .inr (ih.elim .inr id)

/-- A number is there, or the loop goes on with a point or an exponent. -/
theorem Pieces.after_digits (h : Pieces type u type') :
    ∃ ds u', u = ds ++ u' ∧ (∀ c ∈ ds, c.isDigit = true) ∧ Pieces type u' type' ∧
      (u' = [] ∨ goesOn u' = true) := by
  induction h with
  | done type => exact ⟨[], [], rfl, List.forall_mem_nil _, .done type, .inl rfl⟩
  | digit hd h ih =>
    obtain ⟨ds, u', rfl, hds, hu', hgoes⟩ := ih
    exact ⟨_ :: ds, u', rfl, List.forall_mem_cons.mpr ⟨hd, hds⟩, hu', hgoes⟩
  | point h ih => exact ⟨[], _, rfl, List.forall_mem_nil _, .point h, .inr rfl⟩
  | exponent he hsign hd h ih =>
    exact ⟨[], _, rfl, List.forall_mem_nil _, .exponent he hsign hd h,
      .inr (Bool.or_eq_true_iff.mpr (.inr he))⟩

private theorem exponent_of_pieces {e d : Char} {sign es : List Char} (he : isexponent e = true)
    (hsign : sign = [] ∨ sign = ['+'] ∨ sign = ['-'])
    (hds : ∀ c ∈ d :: es, c.isDigit = true) : ∃ q, Exponent (e :: (sign ++ d :: es)) q := by
  have hne : d :: es ≠ [] := List.cons_ne_nil d es
  rcases hsign with rfl | rfl | rfl
  · exact ⟨_, .bare he hne hds⟩
  · exact ⟨_, .plus he hne hds⟩
  · exact ⟨_, .minus he hne hds⟩

/-- An exponent and what the loop reads after it -/
theorem Pieces.exponent_part (h : Pieces type u type') (hgoes : u = [] ∨ goesOn u = true) :
    ∃ exp e rest, u = exp ++ rest ∧ Exponent exp e ∧ (rest = [] ∨ goesOn rest = true) ∧
      (exp = [] → rest.head?.any isexponent = false) := by
  cases h with
  | done => exact ⟨[], 0, [], rfl, .none, .inl rfl, fun _ => rfl⟩
  | digit hd h =>
    have hhead := any_isDigit_of_goesOn (hgoes.resolve_left (List.cons_ne_nil _ _))
    cases hhead.symm.trans hd
  | point h => exact ⟨[], 0, _, rfl, .none, .inr rfl, fun _ => rfl⟩
  | exponent he hsign hd h =>
    obtain ⟨es, rest, rfl, hes, -, hrest⟩ := h.after_digits
    obtain ⟨q, hexp⟩ := exponent_of_pieces he hsign (List.forall_mem_cons.mpr ⟨hd, hes⟩)
    refine ⟨_, q, rest, ?_, hexp, hrest, nofun⟩
    rw [List.cons_append, List.append_assoc, List.cons_append]

/-- What the loop reads has the parts of a number, and a rest. -/
theorem Pieces.parts (h : Pieces type u type') :
    ∃ (int frac digits exp : List Char) (e : ℤ) (rest : List Char),
      Parts int frac digits exp e rest ∧ u = int ++ (frac ++ (exp ++ rest)) := by
  obtain ⟨int, u₁, rfl, hint, h₁, hgoes₁⟩ := h.after_digits
  by_cases hpoint : u₁.head? = some '.'
  · cases h₁ with
    | done => cases hpoint
    | digit hd h₂ =>
      obtain rfl := Option.some_inj.mp hpoint
      cases hd
    | point h₂ =>
      obtain ⟨fs, u₃, rfl, hfs, h₃, hgoes₃⟩ := h₂.after_digits
      obtain ⟨exp, e, rest, rfl, hexp, hrest, hnone⟩ := h₃.exponent_part hgoes₃
      exact ⟨int, _, fs, exp, e, rest, ⟨hint, .point hfs, hexp, hrest, nofun, hnone⟩, rfl⟩
    | exponent he hsign hd h₂ =>
      obtain rfl := Option.some_inj.mp hpoint
      cases he
  · obtain ⟨exp, e, rest, rfl, hexp, hrest, hnone⟩ := h₁.exponent_part hgoes₁
    exact ⟨int, [], [], exp, e, rest, ⟨hint, .none, hexp, hrest, fun _ => hpoint, hnone⟩, rfl⟩

/-- What the loop reads is a float just when nothing goes on after its parts. -/
theorem Pieces.float_iff (h : Pieces .TINT (d :: u) type) (hd : d.isDigit = true)
    (htype : type ≠ .TINT) (hv : Stops v) :
    goesOn ((d :: u ++ v).dropWhile Char.isDigit) = true ∧
      ((∃ q, FloatLiteral (d :: u) q) ↔ goesOn (afterNumber (d :: u ++ v)) = false) := by
  obtain ⟨int, frac, digits, exp, e, rest, hparts, htext⟩ := h.parts
  have hdrop := hparts.dropWhile hv
  have hafter := hparts.afterNumber hv
  rw [← htext] at hdrop hafter
  have hint : int ≠ [] := by
    rintro rfl
    have hhead := any_isDigit_append hparts.fraction.goesOn
      (any_isDigit_append hparts.exponent.goesOn (any_isDigit_append hparts.remains (v := []) rfl))
    rw [List.append_nil, ← List.nil_append (frac ++ _), ← htext] at hhead
    cases hhead.symm.trans hd
  have hsome : frac ++ exp ≠ [] := by
    intro hnil
    obtain ⟨rfl, rfl⟩ := List.append_eq_nil_iff.mp hnil
    have hrest : rest = [] := by
      refine hparts.remains.resolve_right fun hgoes => ?_
      have hpoint := hparts.noPoint rfl
      have hexp := hparts.noExponent rfl
      cases rest with
      | nil => cases hgoes
      | cons c rest =>
        rw [goesOn, List.head?_cons, Option.any_some, Bool.or_eq_true, decide_eq_true_iff] at hgoes
        cases hgoes with
        | inl hc => exact hpoint (congrArg some hc)
        | inr hc => cases hexp.symm.trans hc
    subst hrest
    rw [List.nil_append, List.nil_append, List.append_nil] at htext
    exact htype (h.of_digits (htext ▸ hparts.integral))
  have hgoes : goesOn (frac ++ exp) = true := by
    cases hparts.fraction with
    | none => exact hparts.exponent.goesOn.resolve_left hsome
    | point hds => rfl
  refine ⟨?_, ?_, ?_⟩
  · rw [hdrop, ← List.append_assoc]
    cases hcases : frac ++ exp with
    | nil => exact absurd hcases hsome
    | cons c cs =>
      rw [hcases] at hgoes
      exact hgoes
  · rintro ⟨q, hfloat⟩
    obtain ⟨int', frac', digits', exp', e', hparts', htext', -⟩ := hfloat.parts
    have hafter' := hparts'.afterNumber (v := []) rfl
    have hself := hparts.afterNumber (v := []) rfl
    rw [List.append_nil, List.append_nil, List.append_nil, ← htext'] at hafter'
    rw [List.append_nil, List.append_nil, ← htext, hafter'] at hself
    rw [hafter, ← hself]
    exact goesOn_eq_false_of_stops hv
  · intro hstop
    have hrest : rest = [] := by
      refine hparts.remains.resolve_right fun hgoes' => ?_
      rw [hafter] at hstop
      cases rest with
      | nil => cases hgoes'
      | cons c rest => cases hstop.symm.trans hgoes'
    subst hrest
    rw [List.append_nil] at htext
    rw [htext]
    exact ⟨_, .mk hint hparts.integral hparts.fraction hparts.exponent hsome⟩

/-! ### Integers -/

theorem isDigit_iff : c.isDigit = true ↔ 48 ≤ c.toNat ∧ c.toNat ≤ 57 := by
  rw [Char.isDigit, Bool.and_eq_true, decide_eq_true_iff, decide_eq_true_iff]
  exact Iff.rfl

private theorem scisodigit_iff : scisodigit c = true ↔ 48 ≤ c.toNat ∧ c.toNat ≤ 55 := by
  rw [scisodigit, Bool.and_eq_true, decide_eq_true_iff, decide_eq_true_iff]
  exact Iff.rfl

theorem isDigit_of_scisodigit (h : scisodigit c = true) : c.isDigit = true := by
  rw [scisodigit_iff] at h
  rw [isDigit_iff]
  omega

theorem toUpper_ne_of_isDigit (h : c.isDigit = true) : c.toUpper ≠ 'X' := by
  rw [isDigit_iff] at h
  unfold Char.toUpper
  split
  · rename_i hlower
    have hlow : 97 ≤ c.toNat := hlower.1
    omega
  · rintro rfl
    exact absurd h.2 (by decide)

variable {x o : Char} {n : ℕ}

theorem integerLiteral_hexadecimal (hx : x.toUpper = 'X') (hds : ∀ c ∈ ds, isxdigit c = true) :
    IntegerLiteral ('0' :: x :: ds) n ↔ ds ≠ [] ∧ n = digitsValue 16 ds := by
  constructor
  · intro h
    cases h with
    | decimal hds' hoctal =>
      have hdigit := hds' x (List.mem_cons_of_mem _ List.mem_cons_self)
      exact absurd hx (toUpper_ne_of_isDigit hdigit)
    | octal hne hds' =>
      have hdigit := isDigit_of_scisodigit (hds' x List.mem_cons_self)
      exact absurd hx (toUpper_ne_of_isDigit hdigit)
    | hexadecimal hx' hne hds' => exact ⟨hne, rfl⟩
  · rintro ⟨hne, rfl⟩
    exact .hexadecimal hx hne hds

theorem integerLiteral_octal (hds : ∀ c ∈ o :: ds, scisodigit c = true) :
    IntegerLiteral ('0' :: o :: ds) n ↔ n = digitsValue 8 (o :: ds) := by
  have ho := hds o List.mem_cons_self
  constructor
  · intro h
    cases h with
    | decimal hds' hoctal => exact absurd ⟨rfl, ho⟩ hoctal
    | octal hne hds' => rfl
    | hexadecimal hx hne hds' => exact absurd hx (toUpper_ne_of_isDigit (isDigit_of_scisodigit ho))
  · rintro rfl
    exact .octal (List.cons_ne_nil o ds) hds

theorem integerLiteral_decimal (hds : ∀ c ∈ d :: ds, c.isDigit = true)
    (hoctal : ¬(d = '0' ∧ ds.head?.any scisodigit = true)) :
    IntegerLiteral (d :: ds) n ↔ n = digitsValue 10 (d :: ds) := by
  constructor
  · intro h
    cases h with
    | decimal hds' hoctal' => rfl
    | octal hne hds' =>
      cases ds with
      | nil => exact absurd rfl hne
      | cons o ds => exact absurd ⟨rfl, hds' o List.mem_cons_self⟩ hoctal
    | @hexadecimal x ds hx hne hds' =>
      have hdigit := hds x (List.mem_cons_of_mem _ List.mem_cons_self)
      exact absurd hx (toUpper_ne_of_isDigit hdigit)
  · rintro rfl
    exact .decimal hds hoctal

theorem denotable_hexadecimal (hx : x.toUpper = 'X') (hds : ∀ c ∈ ds, isxdigit c = true)
    (hv : v.head?.any isxdigit = false) :
    Denotable w ('0' :: x :: (ds ++ v)) ↔ ds ≠ [] ∧ digitsValue 16 ds < 2 ^ (w - 1) := by
  rw [Denotable, if_pos ⟨rfl, decide_eq_true hx⟩, List.drop_succ_cons, List.drop_succ_cons,
    List.drop_zero, takeWhile_run hds hv]

theorem denotable_octal (hds : ∀ c ∈ o :: ds, scisodigit c = true)
    (hv : v.head?.any scisodigit = false) :
    Denotable w ('0' :: (o :: ds ++ v)) ↔ digitsValue 8 (o :: ds) < 2 ^ (w - 1) := by
  have ho := hds o List.mem_cons_self
  have hx : ¬o.toUpper = 'X' := toUpper_ne_of_isDigit (isDigit_of_scisodigit ho)
  rw [Denotable, if_neg fun h => hx (of_decide_eq_true h.2), if_pos ⟨rfl, ho⟩, List.tail_cons,
    takeWhile_run hds hv]

theorem denotable_decimal (hstart : ¬(cs.head? = some '0' ∧
      (cs.tail.head?.any (·.toUpper = 'X') ∨ cs.tail.head?.any scisodigit))) :
    Denotable w cs ↔ if goesOn (cs.dropWhile Char.isDigit) then goesOn (afterNumber cs) = false
      else digitsValue 10 (cs.takeWhile Char.isDigit) < 2 ^ (w - 1) := by
  rw [Denotable, if_neg fun h => hstart ⟨h.1, .inl h.2⟩, if_neg fun h => hstart ⟨h.1, .inr h.2⟩]

end Squirt.SQLexer
