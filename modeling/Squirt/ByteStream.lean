import Mathlib.Algebra.Ring.Nat
import Mathlib.Data.List.Basic
import Mathlib.Data.Int.Basic
import Mathlib.Tactic.SplitIfs

/-!
# Writers and readers of byte streams

A writer appends to what has been written, a reader takes bytes from the front. `Mirrors`
says that a reader gets back what a writer has put in the stream, `Extends` that what follows
what a reader takes does not matter to it, and `Settles` that a reader with fuel does not run
out of it.
-/

namespace ByteStream

abbrev Byte := BitVec 8

/-- Why a reader fails; `fuel` is a reader that has not come to an end. -/
inductive ReadError (ε : Type) where
  | error (e : ε)
  | fuel

abbrev Writer (ε : Type) := List Byte → Except ε (List Byte)

abbrev Reader (ε α : Type) := StateT (List Byte) (Except (ReadError ε)) α

variable {ε δ α β : Type}

namespace Writer

def andThen (w w' : Writer δ) : Writer δ := fun out => (w out).bind w'

def done : Writer δ := .ok

/-- One after the other. -/
def each (w : α → Writer δ) : List α → Writer δ
  | [] => done
  | a :: l => (w a).andThen (each w l)

end Writer

namespace Reader

def raise (e : ReadError ε) : Reader ε α := fun _ => .error e

/-- `n` times. -/
def repeated (x : Reader ε α) : ℕ → Reader ε (List α)
  | 0 => pure []
  | n + 1 => do
    let a ← x
    let l ← repeated x n
    return a :: l

variable {x : Reader ε α} {f : α → Reader ε β} {bs r : List Byte} {a : α} {n m : ℕ}

theorem bind_ok (h : x bs = .ok (a, r)) : (x >>= f) bs = f a r := by
  simp only [bind, StateT.bind, Except.bind, h]

theorem bind_error {e : ReadError ε} (h : x bs = .error e) : (x >>= f) bs = .error e := by
  simp only [bind, StateT.bind, Except.bind, h]

theorem exists_of_bind_ok {b : β} (h : (x >>= f) bs = .ok (b, r)) :
    ∃ a r', x bs = .ok (a, r') ∧ f a r' = .ok (b, r) := by
  cases hx : x bs with
  | error e =>
    rw [bind_error hx] at h
    cases h
  | ok p => exact ⟨p.1, p.2, rfl, (bind_ok hx).symm.trans h⟩

/-- Bytes after those a reader takes do not matter. -/
def Extends (x : Reader ε α) : Prop :=
  ∀ bs a r q, x bs = .ok (a, r) → x (bs ++ q) = .ok (a, r ++ q)

theorem extends_pure (a : α) : Extends (pure a : Reader ε α) := by
  intro bs b r q h
  cases h
  rfl

theorem extends_raise (e : ReadError ε) : Extends (raise e : Reader ε α) := by
  intro bs a r q h
  cases h

theorem Extends.bind (hx : Extends x) (hf : ∀ a, Extends (f a)) : Extends (x >>= f) := by
  intro bs b r q h
  obtain ⟨a, r', h₁, h₂⟩ := exists_of_bind_ok h
  rw [bind_ok (hx bs a r' q h₁)]
  exact hf a r' b r q h₂

theorem Extends.ite {c : Prop} [Decidable c] {y : Reader ε α} (hx : Extends x)
    (hy : Extends y) : Extends (if c then x else y) := by
  split_ifs
  · exact hx
  · exact hy

theorem Extends.repeated (hx : Extends x) (n : ℕ) : Extends (x.repeated n) := by
  induction n with
  | zero => exact extends_pure []
  | succ n ih => exact hx.bind fun a => ih.bind fun l => extends_pure (a :: l)

/-- On fewer than `n` bytes the reader does not run out of fuel. -/
structure Settles (x : Reader ε α) (n : ℕ) : Prop where
  ne_fuel : ∀ bs, bs.length < n → x bs ≠ .error .fuel
  length_le : ∀ bs a r, bs.length < n → x bs = .ok (a, r) → r.length ≤ bs.length

theorem settles_pure (a : α) : Settles (pure a : Reader ε α) n := by
  refine ⟨fun _ _ => nofun, fun bs b r _ h => ?_⟩
  cases h
  exact le_rfl

theorem settles_raise (e : ε) : Settles (raise (.error e) : Reader ε α) n :=
  ⟨fun _ _ => nofun, fun _ _ _ _ => nofun⟩

theorem Settles.bind (hx : Settles x n) (hf : ∀ a, Settles (f a) n) : Settles (x >>= f) n := by
  refine ⟨fun bs hbs h => ?_, fun bs b r hbs h => ?_⟩
  · cases hr : x bs with
    | error e =>
      rw [bind_error hr] at h
      exact hx.ne_fuel bs hbs (hr.trans (by rw [Except.error.inj h]))
    | ok p =>
      rw [bind_ok (a := p.1) (r := p.2) hr] at h
      exact (hf p.1).ne_fuel p.2 (Nat.lt_of_le_of_lt (hx.length_le bs p.1 p.2 hbs hr) hbs) h
  · obtain ⟨a, r', h₁, h₂⟩ := exists_of_bind_ok h
    have hle := hx.length_le bs a r' hbs h₁
    exact Nat.le_trans ((hf a).length_le r' b r (Nat.lt_of_le_of_lt hle hbs) h₂) hle

/-- The reader takes a byte at least. -/
def Consumes (x : Reader ε α) : Prop :=
  ∀ bs a r, x bs = .ok (a, r) → r.length < bs.length

theorem Consumes.bind (hx : Consumes x) (hf : ∀ a n, Settles (f a) n) :
    Consumes (x >>= f) := by
  intro bs b r h
  obtain ⟨a, r', h₁, h₂⟩ := exists_of_bind_ok h
  have hlt := hx bs a r' h₁
  have hle := (hf a (r'.length + 1)).length_le r' b r (Nat.lt_succ_self _) h₂
  omega

/-- After that there are fewer bytes. -/
theorem Settles.bind_lt (hx : Settles x (n + 1)) (hlt : Consumes x)
    (hf : ∀ a, Settles (f a) n) : Settles (x >>= f) (n + 1) := by
  refine ⟨fun bs hbs h => ?_, fun bs b r hbs h => ?_⟩
  · cases hr : x bs with
    | error e =>
      rw [bind_error hr] at h
      exact hx.ne_fuel bs hbs (hr.trans (by rw [Except.error.inj h]))
    | ok p =>
      rw [bind_ok (a := p.1) (r := p.2) hr] at h
      have hlt' := hlt bs p.1 p.2 hr
      exact (hf p.1).ne_fuel p.2 (by omega) h
  · obtain ⟨a, r', h₁, h₂⟩ := exists_of_bind_ok h
    have hlt' := hlt bs a r' h₁
    have hle := (hf a).length_le r' b r (by omega) h₂
    omega

theorem Settles.ite {c : Prop} [Decidable c] {y : Reader ε α} (hx : Settles x n)
    (hy : Settles y n) : Settles (if c then x else y) n := by
  split_ifs
  · exact hx
  · exact hy

theorem Settles.repeated (hx : Settles x n) (k : ℕ) : Settles (x.repeated k) n := by
  induction k with
  | zero => exact settles_pure []
  | succ k ih => exact hx.bind fun a => ih.bind fun l => settles_pure (a :: l)

theorem bind_congr {y : Reader ε α} {g : α → Reader ε β} (h : x bs = y bs)
    (hf : ∀ a r, x bs = .ok (a, r) → f a r = g a r) : (x >>= f) bs = (y >>= g) bs := by
  cases hx : x bs with
  | error e => rw [bind_error hx, bind_error (h.symm.trans hx)]
  | ok p =>
    rw [bind_ok (a := p.1) (r := p.2) hx, bind_ok (a := p.1) (r := p.2) (h.symm.trans hx)]
    exact hf p.1 p.2 hx

theorem repeated_congr {y : Reader ε α} (hx : Settles x n)
    (h : ∀ bs, bs.length < n → x bs = y bs) (k : ℕ) (hbs : bs.length < n) :
    x.repeated k bs = y.repeated k bs := by
  induction k generalizing bs with
  | zero => rfl
  | succ k ih =>
    refine bind_congr (h bs hbs) fun a r hr => bind_congr (ih ?_) fun _ _ _ => rfl
    exact Nat.lt_of_le_of_lt (hx.length_le bs a r hbs hr) hbs

end Reader

open Writer Reader

variable {w w' : Writer δ} {x : Reader ε α} {f : α → Reader ε β} {a : α} {b : β}

/-- What `w` writes, `x` reads back as `a`. -/
def Mirrors (w : Writer δ) (x : Reader ε α) (a : α) : Prop :=
  ∀ out, ∃ bs, w out = .ok (out ++ bs) ∧ ∀ rest, x (bs ++ rest) = .ok (a, rest)

theorem mirrors_done (a : α) : Mirrors (δ := δ) (ε := ε) done (pure a) a := by
  intro out
  exact ⟨[], by rw [List.append_nil]; rfl, fun rest => rfl⟩

theorem Mirrors.bind (h : Mirrors w x a) (h' : Mirrors w' (f a) b) :
    Mirrors (w.andThen w') (x >>= f) b := by
  intro out
  obtain ⟨bs, hw, hx⟩ := h out
  obtain ⟨bs', hw', hf⟩ := h' (out ++ bs)
  refine ⟨bs ++ bs', ?_, fun rest => ?_⟩
  · rw [andThen, hw, Except.bind, hw', List.append_assoc]
  · rw [List.append_assoc, bind_ok (hx (bs' ++ rest))]
    exact hf rest

/-- A reader that only computes at its end. -/
theorem Mirrors.map (h : Mirrors w x a) (g : α → β) :
    Mirrors w (x >>= fun a => pure (g a)) (g a) := by
  intro out
  obtain ⟨bs, hw, hx⟩ := h out
  refine ⟨bs, hw, fun rest => ?_⟩
  rw [bind_ok (hx rest)]
  rfl

theorem Mirrors.each {v : α → Writer δ} {l : List α} (h : ∀ a ∈ l, Mirrors (v a) x a) :
    Mirrors (Writer.each v l) (x.repeated l.length) l := by
  induction l with
  | nil => exact mirrors_done []
  | cons a l ih =>
    have htail := ih fun b hb => h b (.tail _ hb)
    exact (h a (.head _)).bind (htail.map (a :: ·))

/-- A strict prefix of what was written is not enough. -/
theorem Mirrors.fails_of_cut (h : Mirrors w x a) (hx : Extends x) {bs p q : List Byte}
    {out : List Byte} (hbs : w out = .ok (out ++ bs)) (hsplit : bs = p ++ q) (hq : q ≠ [])
    (b : α) (r : List Byte) : x p ≠ .ok (b, r) := by
  intro hp
  obtain ⟨bs', hw, hread⟩ := h out
  obtain rfl : bs = bs' := by
    rw [hbs] at hw
    exact List.append_cancel_left (Except.ok.inj hw)
  have hall := hx p b r q hp
  have hread' := hread []
  rw [List.append_nil, hsplit, hall] at hread'
  have hnil : r ++ q = [] := congrArg Prod.snd (Except.ok.inj hread')
  exact hq (List.append_eq_nil_iff.mp hnil).2

/-- How a value of a fixed size lies in memory. -/
structure Layout (α : Type) where
  size : ℕ
  encode : α → List Byte
  decode : List Byte → α
  length_encode : ∀ a, (encode a).length = size
  decode_encode : ∀ a, decode (encode a) = a

/-- The lowest byte first. -/
def leBytes : ℕ → ℕ → List Byte
  | 0, _ => []
  | w + 1, n => BitVec.ofNat 8 n :: leBytes w (n / 256)

def leNat : List Byte → ℕ
  | [] => 0
  | b :: bs => b.toNat + 256 * leNat bs

theorem length_leBytes (w n : ℕ) : (leBytes w n).length = w := by
  induction w generalizing n with
  | zero => rfl
  | succ w ih => rw [leBytes, List.length_cons, ih]

theorem leNat_leBytes (w n : ℕ) : leNat (leBytes w n) = n % 2 ^ (8 * w) := by
  induction w generalizing n with
  | zero => simp [leBytes, leNat, Nat.mod_one]
  | succ w ih =>
    have hpow : 2 ^ (8 * (w + 1)) = 256 * 2 ^ (8 * w) := by
      rw [show 8 * (w + 1) = 8 + 8 * w by omega, Nat.pow_add]
    rw [leBytes, leNat, ih, BitVec.toNat_ofNat, hpow, Nat.mod_mul]

/-- The low bytes are the value without its high ones. -/
theorem leNat_append (bs bs' : List Byte) :
    leNat (bs ++ bs') = leNat bs + 2 ^ (8 * bs.length) * leNat bs' := by
  induction bs with
  | nil => simp [leNat]
  | cons b bs ih =>
    have hpow : 2 ^ (8 * (bs.length + 1)) = 256 * 2 ^ (8 * bs.length) := by
      rw [show 8 * (bs.length + 1) = 8 + 8 * bs.length by omega, Nat.pow_add]
    rw [List.cons_append, leNat, ih, leNat, List.length_cons, hpow, Nat.mul_add, Nat.mul_assoc,
      Nat.add_assoc]

namespace Layout

/-- An integer of `w` bytes. -/
def word (w : ℕ) : Layout (BitVec (8 * w)) where
  size := w
  encode v := leBytes w v.toNat
  decode bs := BitVec.ofNat (8 * w) (leNat bs)
  length_encode v := length_leBytes w v.toNat
  decode_encode v := by
    rw [leNat_leBytes, Nat.mod_eq_of_lt v.isLt, BitVec.ofNat_toNat, BitVec.setWidth_eq]

/-- Two members, one after the other. -/
def pair (l : Layout α) (l' : Layout β) : Layout (α × β) where
  size := l.size + l'.size
  encode p := l.encode p.1 ++ l'.encode p.2
  decode bs := (l.decode (bs.take l.size), l'.decode (bs.drop l.size))
  length_encode p := by rw [List.length_append, l.length_encode, l'.length_encode]
  decode_encode p := by
    rw [List.take_left' (l.length_encode p.1), List.drop_left' (l.length_encode p.1),
      l.decode_encode, l'.decode_encode]

/-- The layout of a structure with the members of `α`. -/
def map (l : Layout α) (f : α → β) (g : β → α) (h : ∀ b, f (g b) = b) : Layout β where
  size := l.size
  encode b := l.encode (g b)
  decode bs := f (l.decode bs)
  length_encode b := l.length_encode (g b)
  decode_encode b := by rw [l.decode_encode, h]

/-- `n` elements that lie in `bs` one after the other. -/
def decodeArray (l : Layout α) : ℕ → List Byte → List α
  | 0, _ => []
  | n + 1, bs => l.decode (bs.take l.size) :: l.decodeArray n (bs.drop l.size)

variable (l : Layout α)

theorem length_flatMap_encode (as : List α) :
    (as.flatMap l.encode).length = l.size * as.length := by
  induction as with
  | nil => rfl
  | cons a as ih =>
    rw [List.flatMap_cons, List.length_append, l.length_encode, ih, List.length_cons,
      Nat.mul_succ, Nat.add_comm]

theorem decodeArray_flatMap (as : List α) :
    l.decodeArray as.length (as.flatMap l.encode) = as := by
  induction as with
  | nil => rfl
  | cons a as ih =>
    rw [List.flatMap_cons, List.length_cons, decodeArray, List.take_left' (l.length_encode a),
      List.drop_left' (l.length_encode a), l.decode_encode, ih]

end Layout
end ByteStream
