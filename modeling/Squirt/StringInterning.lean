import Squirt.StringTable

/-!
# Strings are interned

In every reachable table the strings lie in the buckets of their hashes, no two of them have the
same characters, and the table counts them.
-/

namespace Squirt

open ChainedBuckets

variable {α : Type*}

namespace News

variable [DecidableEq α] {nul : α}

theorem length_content (news : News α nul) : (news.content.length : ℤ) = news.length := by
  have hread := news.readable
  unfold content length scstrlen
  rw [List.length_take]
  split_ifs at hread ⊢ with hlen
  · have hle := (List.takeWhile_prefix (p := (· ≠ nul)) (l := news.chars)).length_le
    simp only [Int.toNat_natCast]
    omega
  · omega

end News

namespace SQStringTable

variable {t t' t'' : SQStringTable α} {p q h : ℕ} {first : Option ℕ} {l : List ℕ} {T : Set ℕ}

/-- A string less its link -/
def stored (t : SQStringTable α) (p : ℕ) : Option (ℤ × ℕ × List α) :=
  (t.memory p).map fun s => (s.len, s.hash, s.val)

/-- The strings in memory -/
def live (t : SQStringTable α) : Set ℕ := {p | t.memory p ≠ none}

private theorem mem_live : p ∈ t.live ↔ t.stored p ≠ none := by
  unfold live stored
  rw [Set.mem_ofPred_eq, ne_eq, ne_eq, Option.map_eq_none_iff]

/-- Only links and buckets change. -/
structure SameStrings (t t' : SQStringTable α) : Prop where
  stored : t'.stored = t.stored
  slotused : t'.slotused = t.slotused

namespace SameStrings

theorem refl : SameStrings t t := ⟨rfl, rfl⟩

theorem trans (h : SameStrings t t') (h' : SameStrings t' t'') : SameStrings t t'' :=
  ⟨h'.stored.trans h.stored, h'.slotused.trans h.slotused⟩

theorem live (h : SameStrings t t') : t'.live = t.live := by
  ext p
  rw [mem_live, mem_live, h.stored]

end SameStrings

theorem SameStrings.memory {s' : SQString α} (h : SameStrings t t') (hp : t'.memory p = some s') :
    ∃ s, t.memory p = some s ∧ s.len = s'.len ∧ s.hash = s'.hash ∧ s.chars = s'.chars := by
  have hstored := congrFun h.stored p
  unfold SQStringTable.stored at hstored
  rw [hp] at hstored
  obtain ⟨s, hs, heq⟩ := Option.map_eq_some_iff.mp hstored.symm
  obtain ⟨hlen, hhash, hval⟩ : s.len = s'.len ∧ s.hash = s'.hash ∧ s.val = s'.val := by simpa using heq
  refine ⟨s, hs, hlen, hhash, ?_⟩
  rw [SQString.chars, hlen, hval]
  rfl

theorem slot_eq (t : SQStringTable α) (p : ℕ) :
    t.slot p = ((t.stored p).elim 0 (·.2.1)) &&& (t.numofslots - 1) := by
  unfold slot stored
  cases t.memory p <;> rfl

theorem slot_congr (hstored : t'.stored p = t.stored p) (hslots : t'.numofslots = t.numofslots) :
    t'.slot p = t.slot p := by
  rw [slot_eq, slot_eq, hstored, hslots]

theorem and_lt {n : ℕ} (hn : 0 < n) (m : ℕ) : m &&& (n - 1) < n := by
  have hle : m &&& (n - 1) ≤ n - 1 := Nat.and_le_right
  omega

theorem slot_lt (hn : 0 < t.numofslots) (p : ℕ) : t.slot p < t.numofslots := and_lt hn _

theorem next_setNext (hp : p ∈ t.live) (q : Option ℕ) :
    (t.setNext p q).next = Function.update t.next p q := by
  funext r
  unfold setNext next
  by_cases hr : r = p
  · subst hr
    obtain ⟨s, hs⟩ := Option.ne_none_iff_exists'.mp hp
    simp [hs]
  · simp [Function.update_of_ne hr]

theorem sameStrings_setNext (t : SQStringTable α) (p : ℕ) (q : Option ℕ) :
    SameStrings t (t.setNext p q) := by
  refine ⟨?_, rfl⟩
  funext r
  unfold setNext stored
  by_cases hr : r = p
  · subst hr
    cases t.memory r <;> simp
  · simp [Function.update_of_ne hr]

theorem head_setHead (hh : h < t.numofslots) (p : Option ℕ) :
    (t.setHead h p).head = Function.update t.head h p := by
  funext i
  unfold setHead head numofslots at *
  by_cases hi : i = h
  · subst hi
    simp [List.getD_eq_getElem?_getD, hh]
  · simp [List.getD_eq_getElem?_getD, List.getElem?_set_ne (Ne.symm hi), Function.update_of_ne hi]

theorem numofslots_setHead (t : SQStringTable α) (h : ℕ) (p : Option ℕ) :
    (t.setHead h p).numofslots = t.numofslots := List.length_set

/-- The buckets of the table hold the strings `T`. -/
def Holds (t : SQStringTable α) (T : Set ℕ) : Prop :=
  Buckets t.next t.head t.numofslots t.slot T

/-- A string that is in memory is linked in at the head of its bucket. -/
theorem Holds.link (hT : t.Holds T) (hn : 0 < t.numofslots) (hp : p ∈ t.live) (hpT : p ∉ T) :
    ((t.setNext p (t.head (t.slot p))).setHead (t.slot p) (some p)).Holds (insert p T) := by
  have hslot := slot_lt hn p
  have hsame := sameStrings_setNext t p (t.head (t.slot p))
  unfold Holds
  rw [show ((t.setNext p (t.head (t.slot p))).setHead (t.slot p) (some p)).numofslots =
    t.numofslots from numofslots_setHead _ _ _]
  refine (hT.insert hpT hslot).congr (fun a _ => ?_) (fun i _ => ?_) fun a _ => ?_
  · exact congrFun (next_setNext hp _) a
  · exact congrFun (head_setHead (t := t.setNext p (t.head (t.slot p))) hslot _) i
  · exact slot_congr (congrFun hsame.stored a) (numofslots_setHead _ _ _)

/-- What `Resize` does to the strings `l`. -/
structure Relinked (t t' : SQStringTable α) (l : List ℕ) : Prop extends SameStrings t t' where
  numofslots : t'.numofslots = t.numofslots
  next : ∀ p, p ∉ l → t'.next p = t.next p

theorem Relinked.trans {l' : List ℕ} (h : Relinked t t' l) (h' : Relinked t' t'' l') :
    Relinked t t'' (l ++ l') := by
  refine ⟨h.toSameStrings.trans h'.toSameStrings, h'.numofslots.trans h.numofslots, ?_⟩
  intro p hp
  rw [List.mem_append, not_or] at hp
  rw [h'.next p hp.2, h.next p hp.1]

/-- One chain of the old table, along which the strings `l` lie. -/
theorem relink_spec {fuel : ℕ} (hn : 0 < t.numofslots) (hT : t.Holds T)
    (hl : Chain t.next first l) (hfuel : l.length < fuel) (hlive : ∀ p ∈ l, p ∈ t.live)
    (hnew : ∀ p ∈ l, p ∉ T) :
    ∃ t', t.relink fuel first = some t' ∧ Relinked t t' l ∧ t'.Holds (T ∪ {p | p ∈ l}) := by
  induction l generalizing t first fuel T with
  | nil =>
    obtain ⟨fuel, rfl⟩ := Nat.exists_eq_succ_of_ne_zero (by omega : fuel ≠ 0)
    obtain rfl : first = none := hl
    refine ⟨t, rfl, ⟨.refl, rfl, fun _ _ => rfl⟩, ?_⟩
    simpa using hT
  | cons p l ih =>
    obtain ⟨fuel, rfl⟩ := Nat.exists_eq_succ_of_ne_zero (by omega : fuel ≠ 0)
    obtain ⟨rfl, hrest⟩ := hl
    have hp := hlive p List.mem_cons_self
    have hchain : Chain t.next (some p) (p :: l) := ⟨rfl, hrest⟩
    have hpl : p ∉ l := (List.nodup_cons.mp hchain.nodup).1
    have hlinked := hT.link hn hp (hnew p List.mem_cons_self)
    have hsame := sameStrings_setNext t p (t.head (t.slot p))
    have hnext := next_setNext hp (t.head (t.slot p))
    set t₁ := (t.setNext p (t.head (t.slot p))).setHead (t.slot p) (some p) with ht₁
    have hsame₁ : SameStrings t t₁ := ⟨hsame.stored, rfl⟩
    have hslots₁ : t₁.numofslots = t.numofslots := numofslots_setHead _ _ _
    have hnext₁ : ∀ q, q ≠ p → t₁.next q = t.next q := fun q hq =>
      (congrFun hnext q).trans (Function.update_of_ne hq _ _)
    obtain ⟨t', hrun, hrelinked, hholds⟩ := ih (t := t₁) (hslots₁ ▸ hn) hlinked
      (hrest.congr fun q hq => hnext₁ q (ne_of_mem_of_not_mem hq hpl)) (by simpa using hfuel)
      (fun q hq => hsame₁.live ▸ hlive q (List.mem_cons_of_mem _ hq))
      (fun q hq => by
        rw [Set.mem_insert_iff, not_or]
        exact ⟨ne_of_mem_of_not_mem hq hpl, hnew q (List.mem_cons_of_mem _ hq)⟩)
    refine ⟨t', hrun, ⟨hsame₁.trans hrelinked.toSameStrings, hrelinked.numofslots.trans hslots₁,
      fun q hq => ?_⟩, ?_⟩
    · rw [List.mem_cons, not_or] at hq
      exact (hrelinked.next q hq.2).trans (hnext₁ q hq.1)
    · convert hholds using 1
      ext q
      simp only [Set.mem_union, Set.mem_ofPred_eq, Set.mem_insert_iff, List.mem_cons]
      tauto

/-- All chains of the old table. -/
theorem relinkAll_spec {heads : List (Option ℕ)} {ls : List (List ℕ)} (hn : 0 < t.numofslots)
    (hT : t.Holds T) (hls : List.Forall₂ (Chain t.next) heads ls) (hnodup : ls.flatten.Nodup)
    (hfuel : ∀ l ∈ ls, l.length ≤ t.slotused) (hlive : ∀ p ∈ ls.flatten, p ∈ t.live)
    (hnew : ∀ p ∈ ls.flatten, p ∉ T) :
    ∃ t', t.relinkAll heads = some t' ∧ Relinked t t' ls.flatten ∧
      t'.Holds (T ∪ {p | p ∈ ls.flatten}) := by
  induction ls generalizing t heads T with
  | nil =>
    cases hls
    refine ⟨t, rfl, ⟨.refl, rfl, fun _ _ => rfl⟩, ?_⟩
    simpa using hT
  | cons l ls ih =>
    cases hls with
    | @cons first _ heads _ hl hls =>
    rw [List.flatten_cons, List.nodup_append'] at hnodup
    rw [List.flatten_cons] at hlive hnew
    obtain ⟨t₁, hrun₁, hrelinked₁, hholds₁⟩ := relink_spec hn hT hl
      (Nat.lt_succ_of_le (hfuel l List.mem_cons_self))
      (fun p hp => hlive p (List.mem_append_left _ hp))
      (fun p hp => hnew p (List.mem_append_left _ hp))
    have hother : ∀ p ∈ ls.flatten, p ∉ l := fun p hp hpl => hnodup.2.2 hpl hp
    have hls₁ := Chain.congr_all hls fun p hp => hrelinked₁.next p (hother p hp)
    obtain ⟨t', hrun, hrelinked, hholds⟩ := ih (hrelinked₁.numofslots ▸ hn) hholds₁ hls₁ hnodup.2.1
      (fun l' hl' => hrelinked₁.slotused ▸ hfuel l' (List.mem_cons_of_mem _ hl'))
      (fun p hp => hrelinked₁.live ▸ hlive p (List.mem_append_right _ hp))
      (fun p hp => by
        rw [Set.mem_union, not_or]
        exact ⟨hnew p (List.mem_append_right _ hp), hother p hp⟩)
    refine ⟨t', ?_, hrelinked₁.trans hrelinked, ?_⟩
    · rw [relinkAll, hrun₁]
      exact hrun
    · convert hholds using 1
      ext q
      simp only [Set.mem_union, Set.mem_ofPred_eq, List.flatten_cons, List.mem_append]
      tauto

theorem head_allocNodes (t : SQStringTable α) (size : ℕ) :
    (t.allocNodes size).head = fun _ => none := by
  funext i
  unfold allocNodes head
  rw [List.getD_eq_getElem?_getD, List.getElem?_replicate]
  split_ifs <;> rfl

private theorem strings_eq (t : SQStringTable α) : t.strings = (List.range t.numofslots).map t.head
    := by
  apply List.ext_getElem
  · simp [numofslots]
  · intro i hi hi'
    simp [head, List.getD_eq_getElem?_getD, hi]

/-- `Resize` keeps all strings and puts each into its bucket. -/
theorem resize_spec {size : ℕ} (ht : t.Holds t.live) (hused : t.live.encard = t.slotused)
    (hsize : 0 < size) :
    ∃ t', t.resize size = some t' ∧ SameStrings t t' ∧ t'.numofslots = size ∧ t'.Holds t.live := by
  obtain ⟨ls, hls, hnodup, hmem⟩ := ht.lists t.numofslots le_rfl
  rw [← strings_eq] at hls
  have hlive : ∀ p, p ∈ ls.flatten ↔ p ∈ t.live := by
    intro p
    rw [hmem]
    exact ⟨fun h => h.1, fun h => ⟨h, ht.place_lt p h⟩⟩
  have hcount : (ls.flatten.length : ℕ∞) = t.live.encard := by
    rw [← List.toFinset_card_of_nodup hnodup, ← Set.encard_coe_eq_coe_finsetCard]
    congr 1
    ext p
    simp [← hlive]
  have hfuel : ∀ l ∈ ls, l.length ≤ t.slotused := by
    intro l hl
    have hle : l.length ≤ ls.flatten.length := (List.sublist_flatten_of_mem hl).length_le
    rw [hused] at hcount
    exact hle.trans_eq (by exact_mod_cast hcount)
  have hslots : (t.allocNodes size).numofslots = size := List.length_replicate
  have hempty : (t.allocNodes size).Holds ∅ := by
    unfold Holds
    rw [head_allocNodes]
    exact .empty _ _ _
  obtain ⟨t', hrun, hrelinked, hholds⟩ := relinkAll_spec (hslots.symm ▸ hsize) hempty hls hnodup
    hfuel (fun p hp => (hlive p).mp hp) (by simp)
  refine ⟨t', hrun, ⟨hrelinked.stored, hrelinked.slotused⟩, hrelinked.numofslots.trans hslots, ?_⟩
  convert hholds using 1
  ext p
  simp [← hlive]

variable {nul : α} {hash : List α → ℕ} {s s' : SQString α}

/-- What holds of every reachable table. -/
structure Interned (hash : List α → ℕ) (t : SQStringTable α) : Prop where
  pos : 0 < t.numofslots
  holds : t.Holds t.live
  hashes : ∀ p s, t.memory p = some s → s.hash = hash s.chars
  lens : ∀ p s, t.memory p = some s → s.len = s.chars.length
  distinct : ∀ p q s s', t.memory p = some s → t.memory q = some s' → s.chars = s'.chars → p = q
  used : t.live.encard = t.slotused

private theorem live_of_memory (hp : t.memory p = some s) : p ∈ t.live := by
  intro hnone
  rw [hp] at hnone
  cases hnone

private theorem slot_of_memory (hp : t.memory p = some s) : t.slot p = s.hash &&& (t.numofslots - 1)
    := by
  rw [slot, hp]
  rfl

/-- There are fewer strings than steps of a loop. -/
theorem Interned.fuel (h : Interned hash t) : t.live.encard < (t.slotused + 1 : ℕ) := by
  rw [h.used]
  exact_mod_cast Nat.lt_succ_self _

/-- Linking strings in anew keeps what holds. -/
theorem Interned.of_same (h : Interned hash t) (hsame : SameStrings t t') (hpos : 0 < t'.numofslots)
    (hholds : t'.Holds t.live) : Interned hash t' := by
  have hlive := hsame.live
  refine ⟨hpos, hlive ▸ hholds, fun p s' hp => ?_, fun p s' hp => ?_, fun p q s' r' hp hq heq => ?_,
    ?_⟩
  · obtain ⟨s, hs, -, hhash, hchars⟩ := hsame.memory hp
    rw [← hhash, ← hchars, h.hashes p s hs]
  · obtain ⟨s, hs, hlen, -, hchars⟩ := hsame.memory hp
    rw [← hlen, ← hchars, h.lens p s hs]
  · obtain ⟨s, hs, -, -, hchars⟩ := hsame.memory hp
    obtain ⟨r, hr, -, -, hchars'⟩ := hsame.memory hq
    exact h.distinct p q s r hs hr (by rw [hchars, hchars', heq])
  · rw [hlive, hsame.slotused, h.used]

/-- A table with a new string, before it is resized. -/
def withString (t : SQStringTable α) (p : ℕ) (s : SQString α) (h : ℕ) : SQStringTable α :=
  { ({ t with memory := Function.update t.memory p (some s) } : SQStringTable α).setHead h (some p)
    with slotused := t.slotused + 1 }

section WithString

variable {s : SQString α}

private theorem live_withString (t : SQStringTable α) (p : ℕ) (s : SQString α) (h : ℕ) :
    (t.withString p s h).live = insert p t.live := by
  ext q
  change Function.update t.memory p (some s) q ≠ none ↔ _
  rw [Set.mem_insert_iff]
  by_cases hq : q = p
  · simp [hq]
  · rw [Function.update_of_ne hq]
    simp [hq, live]

theorem stored_withString (t : SQStringTable α) (p : ℕ) (s : SQString α) (h : ℕ) :
    (t.withString p s h).stored = Function.update t.stored p (some (s.len, s.hash, s.val)) := by
  funext q
  change (Function.update t.memory p (some s) q).map _ = _
  by_cases hq : q = p
  · simp [hq]
  · simp [Function.update_of_ne hq, stored]

private theorem next_withString (t : SQStringTable α) (p : ℕ) (s : SQString α) (h : ℕ) :
    (t.withString p s h).next = Function.update t.next p s.next := by
  funext q
  change (Function.update t.memory p (some s) q).bind _ = _
  by_cases hq : q = p
  · simp [hq]
  · simp [Function.update_of_ne hq, next]

theorem numofslots_withString (t : SQStringTable α) (p : ℕ) (s : SQString α) (h : ℕ) :
    (t.withString p s h).numofslots = t.numofslots := List.length_set

private theorem holds_withString (ht : Interned hash t) (hp : t.memory p = none)
    (hs : s.next = t.head (s.hash &&& (t.numofslots - 1))) :
    (t.withString p s (s.hash &&& (t.numofslots - 1))).Holds (insert p t.live) := by
  set h := s.hash &&& (t.numofslots - 1) with hh
  have hnot : p ∉ t.live := fun hlive => hlive hp
  have hlt : h < t.numofslots := and_lt ht.pos _
  have hslots := numofslots_withString t p s h
  have hplace : (t.withString p s h).slot p = h := by
    rw [slot_eq, stored_withString, Function.update_self, hslots]
    rfl
  have hold : Buckets t.next t.head t.numofslots (t.withString p s h).slot t.live :=
    ht.holds.congr (fun _ _ => rfl) (fun _ _ => rfl) fun a ha => by
      apply slot_congr _ hslots
      rw [stored_withString, Function.update_of_ne (ne_of_mem_of_not_mem ha hnot)]
  have hnew := hold.insert hnot (hplace.symm ▸ hlt : (t.withString p s h).slot p < t.numofslots)
  unfold Holds
  rw [hslots]
  refine hnew.congr (fun a _ => ?_) (fun i _ => ?_) fun _ _ => rfl
  · rw [next_withString, hs, hplace]
  · rw [hplace]
    exact congrFun (head_setHead (t := { t with memory := Function.update t.memory p (some s) })
      hlt _) i

/-- A string with other characters than the others is added. -/
theorem Interned.withString (ht : Interned hash t) (hp : t.memory p = none)
    (hs : s.next = t.head (s.hash &&& (t.numofslots - 1))) (hhash : s.hash = hash s.chars)
    (hlen : s.len = s.chars.length) (hnew : ∀ q r, t.memory q = some r → r.chars ≠ s.chars) :
    Interned hash (t.withString p s (s.hash &&& (t.numofslots - 1))) := by
  have hlive := live_withString t p s (s.hash &&& (t.numofslots - 1))
  -- a string is the new one or an old one
  have hmemory : ∀ q r, (t.withString p s (s.hash &&& (t.numofslots - 1))).memory q = some r →
      q = p ∧ r = s ∨ q ≠ p ∧ t.memory q = some r := by
    intro q r hq
    change Function.update t.memory p (some s) q = some r at hq
    by_cases hqp : q = p
    · subst hqp
      rw [Function.update_self] at hq
      exact .inl ⟨rfl, (Option.some.inj hq).symm⟩
    · rw [Function.update_of_ne hqp] at hq
      exact .inr ⟨hqp, hq⟩
  have hslots := numofslots_withString t p s (s.hash &&& (t.numofslots - 1))
  refine ⟨hslots.symm ▸ ht.pos, hlive ▸ holds_withString ht hp hs,
    fun q r hq => ?_, fun q r hq => ?_, fun q q' r r' hq hq' heq => ?_, ?_⟩
  · rcases hmemory q r hq with ⟨-, rfl⟩ | ⟨-, hq⟩
    · exact hhash
    · exact ht.hashes q r hq
  · rcases hmemory q r hq with ⟨-, rfl⟩ | ⟨-, hq⟩
    · exact hlen
    · exact ht.lens q r hq
  · rcases hmemory q r hq with ⟨rfl, rfl⟩ | ⟨-, hold⟩
    · rcases hmemory q' r' hq' with ⟨rfl, -⟩ | ⟨-, hold'⟩
      · rfl
      · exact absurd heq.symm (hnew q' r' hold')
    · rcases hmemory q' r' hq' with ⟨-, rfl⟩ | ⟨-, hold'⟩
      · exact absurd heq (hnew q r hold)
      · exact ht.distinct q q' r r' hold hold' heq
  · have hnot : p ∉ t.live := fun hlive => hlive hp
    rw [hlive, Set.encard_insert_of_notMem hnot, ht.used]
    rfl

end WithString

/-- The rest of `Remove` after the string is cut out of its chain. -/
theorem Interned.of_removed {t₁ : SQStringTable α} (h : Interned hash t) (hp : p ∈ t.live)
    (hsame : SameStrings t t₁) (hslots : t₁.numofslots = t.numofslots)
    (hbuckets : t₁.Holds (t.live \ {p})) :
    Interned hash
      { t₁ with slotused := t₁.slotused - 1, memory := Function.update t₁.memory p none } := by
  set t' : SQStringTable α :=
    { t₁ with slotused := t₁.slotused - 1, memory := Function.update t₁.memory p none } with ht'
  have hmemory : ∀ q, q ≠ p → t'.memory q = t₁.memory q := fun q hq => Function.update_of_ne hq _ _
  have hold : ∀ q s', t'.memory q = some s' → q ≠ p ∧ t₁.memory q = some s' := by
    intro q s' hq
    have hqp : q ≠ p := by
      rintro rfl
      rw [ht'] at hq
      simp at hq
    exact ⟨hqp, (hmemory q hqp).symm.trans hq⟩
  have hlive : t'.live = t.live \ {p} := by
    ext q
    rw [← hsame.live, Set.mem_sdiff, Set.mem_singleton_iff]
    by_cases hqp : q = p
    · simp [hqp, live, ht']
    · simp [live, hmemory q hqp, hqp]
  refine ⟨hslots.symm ▸ h.pos, ?_, fun q s' hq => ?_, fun q s' hq => ?_,
    fun q r s' r' hq hr heq => ?_, ?_⟩
  · rw [hlive]
    refine Buckets.congr hbuckets (fun a ha => ?_) (fun _ _ => rfl) fun a ha => ?_
    · exact congrArg (Option.bind · _) (hmemory a ha.2)
    · exact congrArg (fun m => (Option.elim m 0 (·.hash)) &&& (t₁.numofslots - 1)) (hmemory a ha.2)
  · obtain ⟨s, hs, -, hhash, hchars⟩ := hsame.memory (hold q s' hq).2
    rw [← hhash, ← hchars, h.hashes q s hs]
  · obtain ⟨s, hs, hlen, -, hchars⟩ := hsame.memory (hold q s' hq).2
    rw [← hlen, ← hchars, h.lens q s hs]
  · obtain ⟨s, hs, -, -, hchars⟩ := hsame.memory (hold q s' hq).2
    obtain ⟨s₂, hs₂, -, -, hchars₂⟩ := hsame.memory (hold r r' hr).2
    exact h.distinct q r s s₂ hs hs₂ (by rw [hchars, hchars₂, heq])
  · rw [hlive, Set.encard_sdiff_singleton_of_mem hp, h.used]
    change _ = ((t₁.slotused - 1 : ℕ) : ℕ∞)
    rw [hsame.slotused, ENat.natCast_sub]
    rfl

/-- `Remove` takes a string out, and only that one. -/
theorem Interned.remove (h : Interned hash t) (hp : p ∈ t.live) :
    ∃ t', t.remove p = some t' ∧ Interned hash t' ∧ t'.stored = Function.update t.stored p none := by
  obtain ⟨l, hl, hmem, hfound⟩ := h.holds.search (slot_lt h.pos p) h.fuel (· = p)
  have hpl : p ∈ l := (hmem p).mpr ⟨hp, rfl⟩
  have hstored : ∀ t₁ : SQStringTable α, SameStrings t t₁ →
      ({ t₁ with slotused := t₁.slotused - 1, memory := Function.update t₁.memory p none } :
        SQStringTable α).stored = Function.update t.stored p none := by
    intro t₁ hsame
    rw [← hsame.stored]
    funext q
    unfold stored
    by_cases hq : q = p
    · simp [hq]
    · simp [Function.update_of_ne hq]
  unfold SQStringTable.remove
  dsimp only
  generalize search t.next (· = p) (t.slotused + 1) none (t.head (t.slot p)) = r at hfound ⊢
  cases hfound with
  | miss _ hno => exact absurd (hno p hpl) (by simp)
  | hit l₁ a l₂ hl₁ ha =>
    obtain rfl : a = p := of_decide_eq_true ha
    subst hl₁
    rcases List.eq_nil_or_concat l₁ with rfl | ⟨l₁, prev, rfl⟩
    · have hslots := numofslots_setHead t (t.slot a) (t.next a)
      have hbuckets : (t.setHead (t.slot a) (t.next a)).Holds (t.live \ {a}) := by
        unfold Holds
        rw [hslots]
        refine (h.holds.remove_first hl hmem).congr (fun _ _ => rfl) (fun i _ => ?_) fun b _ => ?_
        · exact congrFun (head_setHead (slot_lt h.pos a) _) i
        · exact slot_congr rfl hslots
      have hsame : SameStrings t (t.setHead (t.slot a) (t.next a)) := ⟨rfl, rfl⟩
      exact ⟨_, rfl, h.of_removed hp hsame hslots hbuckets, hstored _ hsame⟩
    · have hsame := sameStrings_setNext t prev (t.next a)
      rw [List.concat_eq_append, List.append_assoc] at hl hmem
      have hprev : prev ∈ t.live := ((hmem prev).mp (by simp)).1
      have hbuckets : (t.setNext prev (t.next a)).Holds (t.live \ {a}) := by
        refine (h.holds.remove_behind hl hmem).congr (fun b _ => ?_) (fun _ _ => rfl) fun b _ => ?_
        · exact congrFun (next_setNext hprev _) b
        · exact slot_congr (congrFun hsame.stored b) rfl
      rw [List.concat_eq_append, List.getLast?_append]
      exact ⟨_, rfl, h.of_removed hp hsame rfl hbuckets, hstored _ hsame⟩

private theorem interned_create : Interned hash (create (α := α)) := by
  have hlive : (create (α := α)).live = ∅ := by
    ext p
    simp [live, create, allocNodes]
  have hnone : ∀ p s, (create (α := α)).memory p ≠ some s := fun _ _ h => Option.some_ne_none _ h.symm
  refine ⟨Nat.succ_pos 3, ?_, fun p s hp => absurd hp (hnone p s),
    fun p s hp => absurd hp (hnone p s), fun p _ s _ hp => absurd hp (hnone p s), ?_⟩
  · rw [hlive]
    unfold Holds create
    rw [head_allocNodes]
    exact .empty _ _ _
  · rw [hlive, Set.encard_empty]
    rfl

variable [DecidableEq α] {news : News α nul}

namespace Interned

/-- A string is the one that `Add` looks for when it has the characters. -/
theorem isNews_iff (h : Interned hash t) (news : News α nul) (p : ℕ) :
    t.isNews news p = true ↔ ∃ s, t.memory p = some s ∧ s.chars = news.content := by
  have hlength := news.length_content
  unfold isNews
  cases hp : t.memory p with
  | none => simp
  | some s =>
    have hlen := h.lens p s hp
    simp only [decide_eq_true_eq, Option.some.injEq, exists_eq_left']
    constructor
    · rintro ⟨heq, hchars⟩
      rw [SQString.chars, heq]
      exact hchars
    · intro hchars
      have heq : s.len = news.length := by
        rw [hlen, hchars, hlength]
      refine ⟨heq, ?_⟩
      rw [← heq]
      exact hchars

/-- A string with the characters is what `Add` comes back with. -/
theorem add_found (h : Interned hash t) (hp : t.memory p = some s) (hs : s.chars = news.content)
    (q : ℕ) : t.add hash news q = some (t, p) := by
  have hslot : t.slot p = hash news.content &&& (t.numofslots - 1) := by
    rw [slot_of_memory hp, h.hashes p s hp, hs]
  have hp' : t.isNews news p = true := (h.isNews_iff news p).mpr ⟨s, hp, hs⟩
  obtain ⟨l, hl, hmem, hfound⟩ := h.holds.search (and_lt h.pos (hash news.content)) h.fuel
    (t.isNews news)
  have hpl : p ∈ l := (hmem p).mpr ⟨live_of_memory hp, hslot⟩
  unfold add
  dsimp only
  generalize search t.next (t.isNews news) (t.slotused + 1) none
    (t.head (hash news.content &&& (t.numofslots - 1))) = r at hfound ⊢
  cases hfound with
  | hit l₁ a l₂ _ ha =>
    obtain ⟨s', ha, hs'⟩ := (h.isNews_iff news a).mp ha
    obtain rfl := h.distinct a p s' s ha hp (hs'.trans hs.symm)
    rfl
  | miss _ hno =>
    rw [hno p hpl] at hp'
    cases hp'

/-- Characters that no string has make a new one. -/
theorem add_new (h : Interned hash t) (hp : t.memory p = none)
    (hno : ∀ q s, t.memory q = some s → s.chars ≠ news.content) :
    ∃ t', t.add hash news p = some (t', p) ∧ Interned hash t' ∧
      t'.stored = Function.update t.stored p
        (some (news.length, hash news.content, news.content ++ [nul])) := by
  obtain ⟨l, hl, hmem, hfound⟩ := h.holds.search (and_lt h.pos (hash news.content)) h.fuel
    (t.isNews news)
  set slot := hash news.content &&& (t.numofslots - 1) with hslot
  set string : SQString α :=
    ⟨t.head slot, news.length, hash news.content, news.content ++ [nul]⟩ with hstring
  have hlength := news.length_content
  have hchars : string.chars = news.content := by
    rw [SQString.chars, show string.len.toNat = news.content.length from by
      change news.length.toNat = _
      omega]
    exact List.take_left
  have hnew : Interned hash (t.withString p string slot) :=
    h.withString hp rfl (congrArg hash hchars.symm) (by rw [hchars, hlength])
      fun q s hq => hchars ▸ hno q s hq
  have hstored := stored_withString t p string slot
  have hadd : t.add hash news p =
      if (t.withString p string slot).slotused > (t.withString p string slot).numofslots then
        ((t.withString p string slot).resize ((t.withString p string slot).numofslots * 2)).map
          (·, p)
      else some (t.withString p string slot, p) := by
    unfold add
    dsimp only
    generalize search t.next (t.isNews news) (t.slotused + 1) none (t.head slot) = r at hfound ⊢
    cases hfound with
    | hit _ a _ _ ha =>
      obtain ⟨s, ha, hs⟩ := (h.isNews_iff news a).mp ha
      exact absurd hs (hno a s ha)
    | miss _ _ => rfl
  rw [hadd]
  split_ifs
  · obtain ⟨t', hresize, hsame, hslots, hholds⟩ :=
      resize_spec hnew.holds hnew.used (Nat.mul_pos hnew.pos two_pos)
    rw [hresize]
    exact ⟨t', rfl, hnew.of_same hsame (hslots ▸ Nat.mul_pos hnew.pos (by omega)) hholds,
      hsame.stored.trans hstored⟩
  · exact ⟨_, rfl, hnew, hstored⟩

end Interned

theorem Reachable.interned (h : Reachable hash nul t) : Interned hash t := by
  induction h with
  | create => exact interned_create
  | @add t t' news p _ _ hp hadd ih =>
    by_cases hfound : ∃ q s, t.memory q = some s ∧ s.chars = news.content
    · obtain ⟨q, s, hq, hs⟩ := hfound
      rw [ih.add_found hq hs p] at hadd
      cases hadd
      exact ih
    · push Not at hfound
      obtain ⟨t₁, hrun, hinterned, -⟩ := ih.add_new hp hfound
      rw [hrun] at hadd
      cases hadd
      exact hinterned
  | remove _ hbs hremove ih =>
    obtain ⟨t₁, hrun, hinterned, -⟩ := ih.remove hbs
    rw [hrun] at hremove
    cases hremove
    exact hinterned

/-- In every reachable table two strings are the same object exactly when they have the same
length and characters, `Add` comes back with the string that has the characters if there is one,
otherwise it adds it and keeps the others, `Remove` takes out the one string and keeps the others,
and `_slotused` counts the strings. -/
theorem strings_interned (hash : List α → ℕ) (h : Reachable hash nul t) :
    (∀ p q s s', t.memory p = some s → t.memory q = some s' →
      (p = q ↔ s.len = s'.len ∧ s.chars = s'.chars)) ∧
    (∀ (news : News α nul) p s, t.memory p = some s → s.chars = news.content →
      ∀ q, t.add hash news q = some (t, p)) ∧
    (∀ (news : News α nul) q, t.memory q = none →
      (∀ p s, t.memory p = some s → s.chars ≠ news.content) →
      ∃ t', t.add hash news q = some (t', q) ∧ t'.stored = Function.update t.stored q
        (some (news.length, hash news.content, news.content ++ [nul]))) ∧
    (∀ p ∈ t.live, ∃ t', t.remove p = some t' ∧ t'.stored = Function.update t.stored p none) ∧
    t.live.encard = t.slotused := by
  have hinterned := h.interned
  refine ⟨fun p q s s' hp hq => ?_, fun news p s hp hs q => ?_, fun news q hq hno => ?_,
    fun p hp => ?_, hinterned.used⟩
  · constructor
    · rintro rfl
      rw [hp] at hq
      cases hq
      exact ⟨rfl, rfl⟩
    · intro hsame
      exact hinterned.distinct p q s s' hp hq hsame.2
  · exact hinterned.add_found hp hs q
  · obtain ⟨t', hrun, -, hstored⟩ := hinterned.add_new hq hno
    exact ⟨t', hrun, hstored⟩
  · obtain ⟨t', hrun, -, hstored⟩ := hinterned.remove hp
    exact ⟨t', hrun, hstored⟩

def letter (c : ℕ) : News ℕ 0 := ⟨[c], 1, by simp⟩

/-- The strings of `n` letters from "a" on, at the addresses from 1 on, all with the hash 1 -/
def letters : ℕ → SQStringTable ℕ
  | 0 => create
  | n + 1 => ((letters n).add List.length (letter (97 + n)) (n + 1)).elim create Prod.fst

private theorem reachable_letters : Reachable List.length 0 (letters 5) := by
  have hone : Reachable List.length 0 (letters 1) :=
    .add .create rfl (show create.add List.length (letter 97) 1 = some (letters 1, 1) from rfl)
  have htwo : Reachable List.length 0 (letters 2) :=
    hone.add rfl (show (letters 1).add List.length (letter 98) 2 = some (letters 2, 2) from rfl)
  have hthree : Reachable List.length 0 (letters 3) :=
    htwo.add rfl (show (letters 2).add List.length (letter 99) 3 = some (letters 3, 3) from rfl)
  have hfour : Reachable List.length 0 (letters 4) :=
    hthree.add rfl (show (letters 3).add List.length (letter 100) 4 = some (letters 4, 4) from rfl)
  exact hfour.add rfl
    (show (letters 4).add List.length (letter 101) 5 = some (letters 5, 5) from rfl)

/-- The fifth string of the same slot makes the table grow. When the second one has been removed,
"a" is found behind the others. -/
theorem strings_interned_letters :
    ∃ t, (letters 5).remove 2 = some t ∧ (letters 4).numofslots = 4 ∧ t.numofslots = 8 ∧
      t.live.encard = t.slotused ∧ ∀ q, t.add List.length (letter 97) q = some (t, 1) := by
  have htwo : (letters 5).memory 2 ≠ none := by decide
  have hremoved := reachable_letters.remove htwo (show (letters 5).remove 2 = some _ from rfl)
  have hinterned := strings_interned List.length hremoved
  exact ⟨_, rfl, rfl, rfl, hinterned.2.2.2.2, hinterned.2.1 (letter 97) 1 _ rfl rfl⟩

end SQStringTable

end Squirt
