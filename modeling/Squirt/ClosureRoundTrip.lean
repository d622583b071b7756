import Squirt.ClosureStream

/-!
# Writing a prototype and reading it back
-/

namespace Squirt.ClosureStream

open ByteStream ByteStream.Reader

variable {P : Platform} {α β : Type} {n : ℕ}

namespace SQObjectPtr

/-- A string, an integer, a float or null. -/
def IsPlain : SQObjectPtr P → Prop
  | other _ _ => False
  | _ => True

end SQObjectPtr

namespace SQFunctionProto

/-- Everything that a prototype holds itself can be written, and fits in memory. -/
structure Fits (p : SQFunctionProto P) : Prop where
  sourcename : p.sourcename.IsPlain
  name : p.name.IsPlain
  literals : ∀ o ∈ p.literals, o.IsPlain
  parameters : ∀ o ∈ p.parameters, o.IsPlain
  outervalues : ∀ v ∈ p.outervalues, v.src.IsPlain ∧ v.name.IsPlain
  localvarinfos : ∀ lvi ∈ p.localvarinfos, lvi.name.IsPlain
  nliterals : P.IsSize p.literals.length
  nparameters : P.IsSize p.parameters.length
  noutervalues : P.IsSize p.outervalues.length
  nlocalvarinfos : P.IsSize p.localvarinfos.length
  lineinfos : P.IsSize ((lineInfoLayout P).size * p.lineinfos.length)
  defaultparams : P.IsSize ((intLayout P).size * p.defaultparams.length)
  instructions : P.IsSize (instructionLayout.size * p.instructions.length)
  nfunctions : P.IsSize p.functions.length

/-- The prototype and the ones in it, at any depth. -/
inductive Storable : SQFunctionProto P → Prop
  | mk {p : SQFunctionProto P} (fits : p.Fits) (functions : ∀ f ∈ p.functions, Storable f) :
    Storable p

end SQFunctionProto

section Sizes

private theorem Platform.eight_le (P : Platform) : 32 ≤ 8 * P.sizeofSQInteger := by
  rw [Platform.sizeofSQInteger]
  omega

/-- A size is the same number as an `SQInteger`, and not negative. -/
theorem toNat_ofSize (h : P.IsSize n) :
    (P.ofSize n).toNat = n ∧ (P.ofSize n).msb = false := by
  have h8 := P.eight_le
  have hpow : 2 ^ (8 * P.sizeofSQInteger) = 2 * 2 ^ (8 * P.sizeofSQInteger - 1) := by
    rw [← Nat.pow_succ']
    congr 1
    omega
  have hn : n < 2 ^ (8 * P.sizeofSQInteger - 1) := h
  have htoNat : (P.ofSize n).toNat = n := by
    rw [Platform.ofSize, BitVec.toNat_ofNat, Nat.mod_eq_of_lt (by omega)]
  refine ⟨htoNat, ?_⟩
  rw [BitVec.msb_eq_false_iff_two_mul_lt, htoNat]
  omega

private theorem toInt_ofSize (h : P.IsSize n) : (P.ofSize n).toInt.toNat = n := by
  obtain ⟨hn, hmsb⟩ := toNat_ofSize h
  rw [BitVec.toInt_eq_msb_cond, hmsb, if_neg Bool.false_ne_true, hn, Int.toNat_natCast]

private theorem ofSize_mul (m n : ℕ) : P.ofSize m * P.ofSize n = P.ofSize (m * n) := by
  rw [Platform.ofSize, Platform.ofSize, Platform.ofSize, BitVec.ofNat_mul]

theorem Platform.IsSize.le {m : ℕ} (h : P.IsSize n) (hm : m ≤ n) : P.IsSize m :=
  Nat.lt_of_le_of_lt hm h

end Sizes

section Mirrors

theorem safeRead_append (bs rest : List Byte) :
    safeRead bs.length (bs ++ rest) = .ok (bs, rest) := by
  rw [safeRead, if_pos (by rw [List.length_append]; omega), List.take_left, List.drop_left]

theorem mirrors_value (l : Layout α) (a : α) : Mirrors (writeValue l a) (readValue l) a := by
  intro out
  refine ⟨l.encode a, rfl, fun rest => ?_⟩
  have hread := safeRead_append (l.encode a) rest
  rw [l.length_encode] at hread
  rw [readValue, bind_ok hread, l.decode_encode]
  rfl

private theorem mirrors_array (l : Layout α) {as : List α} (hpos : 0 < l.size)
    (h : P.IsSize (l.size * as.length)) :
    Mirrors (writeArray l as) (readArray l (P.ofSize as.length)) as := by
  intro out
  refine ⟨as.flatMap l.encode, rfl, fun rest => ?_⟩
  obtain ⟨hsize, hmsb⟩ := toNat_ofSize h
  obtain ⟨hlen, -⟩ := toNat_ofSize (h.le (Nat.le_mul_of_pos_left as.length hpos))
  have hread := safeRead_append (as.flatMap l.encode) rest
  rw [l.length_flatMap_encode] at hread
  simp only [readArray, ofSize_mul, hmsb, hsize, hlen, Bool.false_eq_true, if_false]
  rw [bind_ok hread, l.decodeArray_flatMap]
  rfl

theorem mirrors_tag (tag : BitVec 32) : Mirrors (writeTag tag) (checkTag tag) () := by
  intro out
  obtain ⟨bs, hw, hr⟩ := mirrors_value tagLayout tag out
  refine ⟨bs, hw, fun rest => ?_⟩
  rw [checkTag, bind_ok (hr rest), if_neg (not_not_intro rfl)]
  rfl

theorem mirrors_int (i : P.SQInteger) : Mirrors (writeInt i) (readInt P) i :=
  mirrors_value (intLayout P) i

private theorem charLayout_size (l : ℕ) : (charLayout P).size * l = P.rsl l := by
  simp only [charLayout, Layout.word, Platform.sizeofSQChar, Platform.rsl]
  split_ifs
  · rw [Nat.mul_comm]
  · rw [Nat.one_mul]

private theorem rsl_le (l : ℕ) : l ≤ P.rsl l := by
  rw [Platform.rsl]
  split_ifs
  · omega
  · exact Nat.le_refl l

/-- The size of a string that is read, as an `SQInteger`. -/
theorem rsl_ofSize (l : ℕ) : (if P.unicode then P.ofSize l <<< 1 else P.ofSize l) =
    P.ofSize (P.rsl l) := by
  rw [Platform.rsl]
  split_ifs
  · apply BitVec.eq_of_toNat_eq
    rw [BitVec.toNat_shiftLeft, Platform.ofSize, Platform.ofSize, BitVec.toNat_ofNat,
      BitVec.toNat_ofNat, Nat.shiftLeft_eq, Nat.pow_one, Nat.mod_mul_mod]
  · rfl

private theorem mirrors_string (s : SQString P) :
    Mirrors (SQObjectPtr.string s).write (readObject P) (.string s) := by
  intro out
  obtain ⟨bs₁, hw₁, hr₁⟩ := mirrors_value tagLayout OT_STRING out
  obtain ⟨bs₂, hw₂, hr₂⟩ := mirrors_int (P.ofSize s.val.length) (out ++ bs₁)
  obtain ⟨hsize, hmsb⟩ := toNat_ofSize s.isSize
  obtain ⟨hlen, -⟩ := toNat_ofSize (s.isSize.le (rsl_le s.val.length))
  have hflat := (charLayout P).length_flatMap_encode s.val
  rw [charLayout_size] at hflat
  refine ⟨bs₁ ++ (bs₂ ++ s.val.flatMap (charLayout P).encode), ?_, fun rest => ?_⟩
  · simp only [SQObjectPtr.write, SQObjectPtr.type, Writer.andThen, writeTag, hw₁, Except.bind,
      hw₂, writeArray, safeWrite, List.append_assoc]
  · have hread := safeRead_append (s.val.flatMap (charLayout P).encode) rest
    rw [hflat] at hread
    rw [List.append_assoc, readObject, bind_ok (hr₁ _), if_pos rfl, List.append_assoc,
      bind_ok (hr₂ _)]
    simp only [rsl_ofSize, hmsb, hsize, Bool.false_eq_true, if_false]
    rw [bind_ok hread, createString]
    have hval : (charLayout P).decodeArray (P.ofSize s.val.length).toNat
        (s.val.flatMap (charLayout P).encode) = s.val := by
      rw [hlen, Layout.decodeArray_flatMap]
    simp only [hval, s.isSize, dif_pos]
    rfl

theorem mirrors_object {o : SQObjectPtr P} (h : o.IsPlain) : Mirrors o.write (readObject P) o := by
  cases o with
  | string s => exact mirrors_string s
  | integer i =>
    refine (mirrors_value tagLayout OT_INTEGER).bind ?_
    rw [if_neg (by decide), if_pos rfl]
    exact (mirrors_int i).map SQObjectPtr.integer
  | float f =>
    refine (mirrors_value tagLayout OT_FLOAT).bind ?_
    rw [if_neg (by decide), if_neg (by decide), if_pos rfl]
    exact (mirrors_value (floatLayout P) f).map SQObjectPtr.float
  | null =>
    refine (mirrors_value tagLayout OT_NULL).bind ?_
    rw [if_neg (by decide), if_neg (by decide), if_neg (by decide), if_pos rfl]
    exact mirrors_done _
  | other t h' => exact absurd h id

/-- What lies behind the type is not part of what is read. -/
theorem mirrors_outerType (type : BitVec 32) :
    Mirrors (writeOuterType (P := P) type) (readOuterType P) type := by
  intro out
  refine ⟨_, rfl, fun rest => ?_⟩
  have hread := safeRead_append ((outerTypeLayout P).encode (type, P.behind out.length)) rest
  rw [(outerTypeLayout P).length_encode] at hread
  have hword : (((intLayout P).decode ((outerTypeLayout P).encode
      (type, P.behind out.length))).setWidth 32) = type := by
    apply BitVec.eq_of_toNat_eq
    have hpow : (2 : ℕ) ^ (8 * P.sizeofSQInteger) = 2 ^ 32 * 2 ^ (8 * P.pad) := by
      rw [← Nat.pow_add, Platform.sizeofSQInteger]
      congr 1
      omega
    simp only [intLayout, outerTypeLayout, tagLayout, Layout.pair, Layout.word, leNat_append,
      length_leBytes, leNat_leBytes, BitVec.toNat_setWidth, BitVec.toNat_ofNat]
    rw [hpow, Nat.mod_mul_right_mod]
    omega
  rw [readOuterType, bind_ok (a := (intLayout P).decode _) (r := rest)]
  · rw [hword]
    rfl
  · exact bind_ok hread

private theorem mirrors_outerVar {v : SQOuterVar P} (h : v.src.IsPlain ∧ v.name.IsPlain) :
    Mirrors v.write (readOuterVar P) v :=
  (mirrors_outerType v.type).bind
    ((mirrors_object h.1).bind ((mirrors_object h.2).map fun name => SQOuterVar.mk v.type name v.src))

private theorem mirrors_localVarInfo {lvi : SQLocalVarInfo P} (h : lvi.name.IsPlain) :
    Mirrors lvi.write (readLocalVarInfo P) lvi :=
  (mirrors_object h).bind <| (mirrors_int lvi.pos).bind <| (mirrors_int lvi.startOp).bind <|
    (mirrors_int lvi.endOp).map fun endOp =>
      SQLocalVarInfo.mk lvi.name lvi.startOp endOp lvi.pos

theorem mirrors_each {v : α → Write} {x : Read α} {l : List α} (hl : P.IsSize l.length)
    (h : ∀ a ∈ l, Mirrors (v a) x a) :
    Mirrors (Writer.each v l) (readEach x (P.ofSize l.length)) l := by
  rw [readEach, toInt_ofSize hl]
  exact Mirrors.each h

namespace SQFunctionProto

private theorem mirrors_sections {p : SQFunctionProto P} (h : p.Fits) :
    Mirrors p.saveSections (loadSections P)
      ({ p with stacksize := 0, bgenerator := false, varparams := 0, functions := [] },
        P.ofSize p.functions.length) := by
  have hint : 0 < (intLayout P).size := Nat.lt_of_lt_of_le (by decide) (Nat.le_add_right 4 P.pad)
  have hline : 0 < (lineInfoLayout P).size := Nat.lt_of_lt_of_le hint (Nat.le_add_right _ _)
  have hinstr : 0 < instructionLayout.size := by decide
  exact (mirrors_tag _).bind <| (mirrors_object h.sourcename).bind <|
    (mirrors_object h.name).bind <| (mirrors_tag _).bind <|
    (mirrors_int _).bind <| (mirrors_int _).bind <| (mirrors_int _).bind <|
    (mirrors_int _).bind <| (mirrors_int _).bind <| (mirrors_int _).bind <|
    (mirrors_int _).bind <| (mirrors_int _).bind <| (mirrors_tag _).bind <|
    (mirrors_each h.nliterals fun o ho => mirrors_object (h.literals o ho)).bind <|
    (mirrors_tag _).bind <|
    (mirrors_each h.nparameters fun o ho => mirrors_object (h.parameters o ho)).bind <|
    (mirrors_tag _).bind <|
    (mirrors_each h.noutervalues fun v hv => mirrors_outerVar (h.outervalues v hv)).bind <|
    (mirrors_tag _).bind <|
    (mirrors_each h.nlocalvarinfos fun v hv =>
      mirrors_localVarInfo (h.localvarinfos v hv)).bind <|
    (mirrors_tag _).bind <| (mirrors_array _ hline h.lineinfos).bind <|
    (mirrors_tag _).bind <| (mirrors_array _ hint h.defaultparams).bind <|
    (mirrors_tag _).bind <| (mirrors_array _ hinstr h.instructions).bind <|
    (mirrors_tag _).map fun _ => _

private theorem mirrors_flags (p : SQFunctionProto P) :
    Mirrors p.saveFlags
      (loadFlags { p with stacksize := 0, bgenerator := false, varparams := 0 }) p := by
  cases p
  exact (mirrors_int _).bind <| (mirrors_value boolLayout _).bind <| (mirrors_int _).map fun _ => _

private theorem saveAll_eq (fs : List (SQFunctionProto P)) : saveAll fs = Writer.each save fs := by
  induction fs with
  | nil => rfl
  | cons f fs ih => rw [saveAll, ih, Writer.each]

private theorem save_eq (p : SQFunctionProto P) :
    p.save = p.saveSections.andThen ((Writer.each save p.functions).andThen p.saveFlags) := by
  cases p
  rw [save, saveAll_eq]

private theorem exists_mirrors {p : SQFunctionProto P} (h : p.Storable) :
    ∃ n, ∀ m, n ≤ m → Mirrors p.save (loadNested P m) p := by
  induction h with
  | @mk p fits functions ih =>
    -- fuel that is enough for all inner functions
    obtain ⟨n, hn⟩ : ∃ n, ∀ f ∈ p.functions, ∀ m, n ≤ m → Mirrors f.save (loadNested P m) f := by
      generalize p.functions = fs at ih
      induction fs with
      | nil => exact ⟨0, nofun⟩
      | cons f fs ihfs =>
        obtain ⟨n₁, h₁⟩ := ih f (.head _)
        obtain ⟨n₂, h₂⟩ := ihfs fun g hg => ih g (.tail _ hg)
        refine ⟨max n₁ n₂, fun g hg m hm => ?_⟩
        cases hg with
        | head => exact h₁ m (by omega)
        | tail _ hg => exact h₂ g hg m (by omega)
    refine ⟨n + 1, fun m hm => ?_⟩
    obtain ⟨m, rfl⟩ : ∃ m', m = m' + 1 := ⟨m - 1, by omega⟩
    rw [save_eq]
    exact (mirrors_sections fits).bind <|
      (mirrors_each fits.nfunctions fun f hf => hn f hf m (by omega)).bind (mirrors_flags p)

end SQFunctionProto

end Mirrors

section Extends

theorem extends_safeRead (n : ℕ) : Extends (safeRead n) := by
  intro bs a r q h
  rw [safeRead] at h ⊢
  split_ifs at h with hn
  cases h
  rw [if_pos (by rw [List.length_append]; omega), List.take_append_of_le_length hn,
    List.drop_append_of_le_length hn]

theorem extends_value (l : Layout α) : Extends (readValue l) :=
  (extends_safeRead l.size).bind fun _ => extends_pure _

private theorem extends_array (l : Layout α) (n : P.SQInteger) : Extends (readArray l n) :=
  .ite (extends_raise _) ((extends_safeRead _).bind fun _ => extends_pure _)

theorem extends_tag (tag : BitVec 32) : Extends (checkTag tag) :=
  (extends_value tagLayout).bind fun _ => .ite (extends_raise _) (extends_pure _)

theorem extends_int : Extends (readInt P) := extends_value (intLayout P)

theorem extends_object : Extends (readObject P) := by
  refine (extends_value tagLayout).bind fun t => .ite (extends_int.bind fun len => .ite ?_ ?_) <|
    .ite (extends_int.bind fun _ => extends_pure _) <|
    .ite ((extends_value _).bind fun _ => extends_pure _) <|
    .ite (extends_pure _) (extends_raise _)
  · exact extends_raise _
  · refine (extends_safeRead _).bind fun pad => ?_
    rw [createString]
    split
    · exact extends_pure _
    · exact extends_raise _

private theorem extends_outerVar : Extends (readOuterVar P) :=
  (extends_int.bind fun _ => extends_pure _).bind fun _ => extends_object.bind fun _ =>
    extends_object.bind fun _ => extends_pure _

private theorem extends_localVarInfo : Extends (readLocalVarInfo P) :=
  extends_object.bind fun _ => extends_int.bind fun _ => extends_int.bind fun _ =>
    extends_int.bind fun _ => extends_pure _

namespace SQFunctionProto

private theorem extends_sections : Extends (loadSections P) :=
  (extends_tag _).bind fun _ => extends_object.bind fun _ => extends_object.bind fun _ =>
  (extends_tag _).bind fun _ => extends_int.bind fun _ => extends_int.bind fun _ =>
  extends_int.bind fun _ => extends_int.bind fun _ => extends_int.bind fun _ =>
  extends_int.bind fun _ => extends_int.bind fun _ => extends_int.bind fun _ =>
  (extends_tag _).bind fun _ => (extends_object.repeated _).bind fun _ =>
  (extends_tag _).bind fun _ => (extends_object.repeated _).bind fun _ =>
  (extends_tag _).bind fun _ => (extends_outerVar.repeated _).bind fun _ =>
  (extends_tag _).bind fun _ => (extends_localVarInfo.repeated _).bind fun _ =>
  (extends_tag _).bind fun _ => (extends_array _ _).bind fun _ =>
  (extends_tag _).bind fun _ => (extends_array _ _).bind fun _ =>
  (extends_tag _).bind fun _ => (extends_array _ _).bind fun _ =>
  (extends_tag _).bind fun _ => extends_pure _

private theorem extends_flags (p : SQFunctionProto P) : Extends (loadFlags p) :=
  extends_int.bind fun _ => (extends_value _).bind fun _ => extends_int.bind fun _ =>
    extends_pure _

private theorem extends_loadNested (n : ℕ) : Extends (loadNested P n) := by
  induction n with
  | zero => exact extends_raise _
  | succ n ih =>
    exact extends_sections.bind fun _ => (ih.repeated _).bind fun _ => extends_flags _

end SQFunctionProto
end Extends

section Settles

theorem settles_safeRead (k n : ℕ) : Settles (safeRead k) n := by
  refine ⟨fun bs _ h => ?_, fun bs a r _ h => ?_⟩
  · rw [safeRead] at h
    split_ifs at h
    cases h
  · rw [safeRead] at h
    split_ifs at h
    cases h
    rw [List.length_drop]
    omega

theorem settles_value (l : Layout α) : Settles (readValue l) n :=
  (settles_safeRead l.size n).bind fun _ => settles_pure _

private theorem settles_array (l : Layout α) (k : P.SQInteger) : Settles (readArray l k) n :=
  .ite (settles_raise _) ((settles_safeRead _ n).bind fun _ => settles_pure _)

theorem settles_tag (tag : BitVec 32) : Settles (checkTag tag) n :=
  (settles_value tagLayout).bind fun _ => .ite (settles_raise _) (settles_pure _)

private theorem consumes_tag (tag : BitVec 32) : Consumes (checkTag tag) := by
  refine Consumes.bind (fun bs a r h => ?_) fun _ _ => .ite (settles_raise _) (settles_pure _)
  obtain ⟨a', r', h₁, h₂⟩ := exists_of_bind_ok h
  rw [safeRead] at h₁
  split_ifs at h₁ with hlen
  cases h₁
  cases h₂
  have h4 : tagLayout.size = 4 := rfl
  rw [List.length_drop]
  omega

theorem settles_int : Settles (readInt P) n := settles_value (intLayout P)

theorem settles_object : Settles (readObject P) n := by
  refine (settles_value tagLayout).bind fun t => .ite (settles_int.bind fun len => .ite ?_ ?_) <|
    .ite (settles_int.bind fun _ => settles_pure _) <|
    .ite ((settles_value _).bind fun _ => settles_pure _) <|
    .ite (settles_pure _) (settles_raise _)
  · exact settles_raise _
  · refine (settles_safeRead _ n).bind fun pad => ?_
    rw [createString]
    split
    · exact settles_pure _
    · exact settles_raise _

private theorem settles_outerVar : Settles (readOuterVar P) n :=
  (settles_int.bind fun _ => settles_pure _).bind fun _ => settles_object.bind fun _ =>
    settles_object.bind fun _ => settles_pure _

private theorem settles_localVarInfo : Settles (readLocalVarInfo P) n :=
  settles_object.bind fun _ => settles_int.bind fun _ => settles_int.bind fun _ =>
    settles_int.bind fun _ => settles_pure _

namespace SQFunctionProto

theorem settles_sections : (∀ n, Settles (loadSections P) n) ∧ Consumes (loadSections P) := by
  obtain ⟨f, hload, hf⟩ : ∃ f, loadSections P = checkTag SQ_CLOSURESTREAM_PART >>= f ∧
      ∀ a n, Settles (f a) n :=
    ⟨_, rfl, fun _ n => settles_object.bind fun _ => settles_object.bind fun _ =>
      (settles_tag _).bind fun _ => settles_int.bind fun _ => settles_int.bind fun _ =>
      settles_int.bind fun _ => settles_int.bind fun _ => settles_int.bind fun _ =>
      settles_int.bind fun _ => settles_int.bind fun _ => settles_int.bind fun _ =>
      (settles_tag _).bind fun _ => (settles_object.repeated _).bind fun _ =>
      (settles_tag _).bind fun _ => (settles_object.repeated _).bind fun _ =>
      (settles_tag _).bind fun _ => (settles_outerVar.repeated _).bind fun _ =>
      (settles_tag _).bind fun _ => (settles_localVarInfo.repeated _).bind fun _ =>
      (settles_tag _).bind fun _ => (settles_array _ _).bind fun _ =>
      (settles_tag _).bind fun _ => (settles_array _ _).bind fun _ =>
      (settles_tag _).bind fun _ => (settles_array _ _).bind fun _ =>
      (settles_tag _).bind fun _ => settles_pure _⟩
  rw [hload]
  exact ⟨fun n => (settles_tag _).bind fun a => hf a n, (consumes_tag _).bind hf⟩

private theorem settles_flags (p : SQFunctionProto P) : Settles (loadFlags p) n :=
  settles_int.bind fun _ => (settles_value _).bind fun _ => settles_int.bind fun _ =>
    settles_pure _

theorem settles_loadNested (n : ℕ) : Settles (loadNested P n) n := by
  induction n with
  | zero => exact ⟨fun bs h => absurd h (Nat.not_lt_zero _), fun bs _ _ h =>
      absurd h (Nat.not_lt_zero _)⟩
  | succ n ih =>
    exact (settles_sections.1 _).bind_lt settles_sections.2 fun _ =>
      (ih.repeated _).bind fun _ => settles_flags _

/-- More fuel than there are bytes changes nothing. -/
theorem loadNested_eq {m : ℕ} {bs : List Byte} (hbs : bs.length < n) (hm : n ≤ m) :
    loadNested P n bs = loadNested P m bs := by
  induction n generalizing m bs with
  | zero => exact absurd hbs (Nat.not_lt_zero _)
  | succ n ih =>
    obtain ⟨m, rfl⟩ : ∃ m', m = m' + 1 := ⟨m - 1, by omega⟩
    refine bind_congr rfl fun a r hr => bind_congr ?_ fun _ _ _ => rfl
    have hlt := settles_sections.2 bs a r hr
    exact repeated_congr (settles_loadNested n) (fun bs' h => ih h (by omega)) _ (by omega)

private theorem settles_load : Settles (load P) n := by
  refine ⟨fun bs _ => ?_, fun bs a r _ => ?_⟩
  · exact (settles_loadNested (bs.length + 1)).ne_fuel bs (Nat.lt_succ_self _)
  · exact (settles_loadNested (bs.length + 1)).length_le bs a r (Nat.lt_succ_self _)

private theorem extends_load : Extends (load P) := by
  intro bs a r q h
  have hle : bs.length + 1 ≤ (bs ++ q).length + 1 := by
    rw [List.length_append]
    omega
  rw [load, loadNested_eq (Nat.lt_succ_self _) hle] at h
  exact extends_loadNested _ bs a r q h

theorem mirrors_load {p : SQFunctionProto P} (h : p.Storable) : Mirrors p.save (load P) p := by
  intro out
  obtain ⟨n, hn⟩ := exists_mirrors h
  obtain ⟨bs, hw, -⟩ := hn n le_rfl out
  refine ⟨bs, hw, fun rest => ?_⟩
  have hle := le_max_right n ((bs ++ rest).length + 1)
  obtain ⟨bs', hw', hread⟩ := hn _ (le_max_left n ((bs ++ rest).length + 1)) out
  obtain rfl : bs = bs' := List.append_cancel_left (Except.ok.inj (hw.symm.trans hw'))
  rw [load, loadNested_eq (Nat.lt_succ_self _) hle]
  exact hread rest

end SQFunctionProto

private theorem settles_loadClosure : Settles (loadClosure P) n :=
  (settles_tag _).bind fun _ => (settles_tag _).bind fun _ => (settles_tag _).bind fun _ =>
    (settles_tag _).bind fun _ => SQFunctionProto.settles_load.bind fun _ =>
    (settles_tag _).bind fun _ => settles_pure _

private theorem extends_loadClosure : Extends (loadClosure P) :=
  (extends_tag _).bind fun _ => (extends_tag _).bind fun _ => (extends_tag _).bind fun _ =>
    (extends_tag _).bind fun _ => SQFunctionProto.extends_load.bind fun _ =>
    (extends_tag _).bind fun _ => extends_pure _

theorem mirrors_loadClosure {p : SQFunctionProto P} (h : p.Storable) :
    Mirrors (saveClosure p) (loadClosure P) p :=
  (mirrors_tag _).bind <| (mirrors_tag _).bind <| (mirrors_tag _).bind <|
    (mirrors_tag _).bind <| (SQFunctionProto.mirrors_load h).bind <|
    (mirrors_tag _).map fun _ => p

end Settles

/-- A prototype is read back as it was, from the bytes that were written and no others; a
closure stream that has been cut off is refused. -/
theorem save_load_round_trip (p : SQFunctionProto P) (h : p.Storable) :
    (∀ out, ∃ bs, p.save out = .ok (out ++ bs) ∧
      ∀ rest, SQFunctionProto.load P (bs ++ rest) = .ok (p, rest)) ∧
    ∀ out cut lost, lost ≠ [] → saveClosure p out = .ok (out ++ (cut ++ lost)) →
      ∃ message, loadClosure P cut = .error (.error message) := by
  refine ⟨SQFunctionProto.mirrors_load h, fun out cut lost hlost hsave => ?_⟩
  have hfails := (mirrors_loadClosure h).fails_of_cut extends_loadClosure hsave rfl hlost
  cases hload : loadClosure P cut with
  | ok r => exact absurd hload (hfails r.1 r.2)
  | error e =>
    cases e with
    | error message => exact ⟨message, rfl⟩
    | fuel => exact absurd hload (settles_loadClosure.ne_fuel cut (Nat.lt_succ_self _))

section Example

def win64 : Platform where
  unicode := false
  pad := 4
  sizeofSQFloat := 4
  behind := fun _ => 0xCDCDCDCD#32

/-- `@(a = 1) a` in a function that is called `f`. -/
def lambdaProto : SQFunctionProto win64 where
  sourcename := .null
  name := .null
  stacksize := 2
  bgenerator := false
  varparams := 0
  localvarinfos := []
  lineinfos := [⟨1, 0⟩]
  literals := []
  parameters := [.string ⟨[116#8, 104#8, 105#8, 115#8], by decide⟩, .string ⟨[97#8], by decide⟩]
  functions := []
  outervalues := [⟨0#32, .string ⟨[98#8], by decide⟩, .integer 3⟩]
  defaultparams := [2]
  instructions := [⟨1#32, 0x17#8, 1#8, 0#8, 0#8⟩]

def nestedProto : SQFunctionProto win64 :=
  { lambdaProto with
    name := .string ⟨[102#8], by decide⟩
    literals := [.integer 7, .float 0x3f800000#32]
    functions := [lambdaProto] }

private theorem storable_nestedProto : nestedProto.Storable := by
  have hleaf : lambdaProto.Storable := by
    refine .mk ⟨trivial, trivial, ?_, ?_, ?_, ?_, ?_, ?_, ?_, ?_, ?_, ?_, ?_, ?_⟩ ?_
    all_goals first | decide | simp [lambdaProto, SQObjectPtr.IsPlain]
  refine .mk ⟨trivial, trivial, ?_, ?_, ?_, ?_, ?_, ?_, ?_, ?_, ?_, ?_, ?_, ?_⟩ fun f hf => ?_
  case refine_13 =>
    obtain rfl := List.mem_singleton.mp hf
    exact hleaf
  all_goals first | decide | simp [nestedProto, lambdaProto, SQObjectPtr.IsPlain]

theorem save_load_round_trip_nestedProto : ∃ bs, nestedProto.save [] = .ok bs ∧
    SQFunctionProto.load win64 bs = .ok (nestedProto, []) := by
  obtain ⟨bs, hsave, hload⟩ := (save_load_round_trip nestedProto storable_nestedProto).1 []
  have hnil := hload []
  rw [List.append_nil] at hnil
  exact ⟨bs, hsave, hnil⟩

end Example

end Squirt.ClosureStream
