import Mathlib.Data.List.Induction
import Squirt.TracedRuns

/-!
# Candidates asked in turn

A candidate finds something, passes or fails. The candidates of a list are asked one after another,
the last of the list first. `ask` stops at the first one that finds or fails; `askOn` stops only
when one finds, so it loses the failures of all candidates but the one it asks last. The candidates
it asks may also find what those of a specification do not look for.
-/

namespace Squirt.Traced

inductive Answer (α : Type)
  | found (a : α)
  | passed
  | failed

variable {σ ε α β : Type}

def Answer.get? : Answer α → Option α
  | found a => some a
  | passed => none
  | failed => none

def ask : List (Traced σ ε (Answer α)) → Traced σ ε (Answer α)
  | [] => pure .passed
  | c :: below => do
    match ← ask below with
    | .found a => pure (.found a)
    | .passed => c
    | .failed => pure .failed

def askOn : List (Traced σ ε (Answer α)) → Traced σ ε (Answer α)
  | [] => pure .passed
  | c :: below => do
    match ← askOn below with
    | .found a => pure (.found a)
    | .passed => c
    | .failed => c

variable {cs : List (Traced σ ε (Answer α))} {s s' : σ} {events : List ε}

/-! ## The candidate asked first -/

theorem bind_pure_right (m : Traced σ ε α) : m >>= pure = m := by
  funext s
  simp only [bind]
  cases m s with
  | done a s' events => exact congrArg (Outcome.done a s') (List.append_nil _)
  | undefined | diverged | outOfFuel => rfl

theorem bind_congr_left {m m' : Traced σ ε α} (h : m s = m' s) (k : α → Traced σ ε β) :
    (m >>= k) s = (m' >>= k) s := by
  simp only [bind, h]

theorem bind_after {m : Traced σ ε α} {k : α → Traced σ ε β} {m' : Traced σ ε α}
    (h : m s = after events (m' s')) : (m >>= k) s = after events ((m' >>= k) s') := by
  simp only [bind, h]
  cases m' s' with
  | done a s'' events' => exact (after_after _ _ _).symm
  | undefined | diverged | outOfFuel => rfl

/-- Nothing is asked after the first one that does not pass. -/
theorem ask_concat (cs : List (Traced σ ε (Answer α))) (c : Traced σ ε (Answer α)) (s : σ) :
    ask (cs ++ [c]) s = match c s with
      | .done .passed s' events => after events (ask cs s')
      | out => out := by
  induction cs with
  | nil =>
    have hone : ask [c] s = c s := bind_pure
    rw [List.nil_append, hone]
    split
    · rename_i s' events heq
      exact heq.trans (congrArg (Outcome.done _ _) (List.append_nil events).symm)
    · rfl
  | cons c' cs ih =>
    rw [List.cons_append, ask]
    split at ih
    · rename_i s' events heq
      exact bind_after ih
    · rename_i hother
      have hstop : (ask (cs ++ [c]) >>= fun answer => match answer with
          | .found a => pure (.found a)
          | .passed => c'
          | .failed => pure .failed) s = c s := by
        simp only [bind, ih]
        cases hc : c s with
        | done answer s' events =>
          cases answer with
          | found a => exact congrArg (Outcome.done _ _) (List.append_nil _)
          | passed => exact absurd hc (hother s' events)
          | failed => exact congrArg (Outcome.done _ _) (List.append_nil _)
        | undefined | diverged | outOfFuel => rfl
      exact hstop

/-- After a failure the others are asked as if there were no others. -/
theorem askOn_concat (c₀ : Traced σ ε (Answer α)) (cs : List (Traced σ ε (Answer α)))
    (c : Traced σ ε (Answer α)) (s : σ) :
    askOn (c₀ :: (cs ++ [c])) s = match c s with
      | .done (.found a) s' events => .done (.found a) s' events
      | .done _ s' events => after events (askOn (c₀ :: cs) s')
      | out => out := by
  induction cs generalizing c₀ with
  | nil =>
    have hone : askOn [c] s = c s := bind_pure
    rw [List.nil_append, askOn]
    simp only [bind, hone]
    cases c s with
    | done answer s' events =>
      cases answer with
      | found a => exact congrArg (Outcome.done _ _) (List.append_nil _)
      | passed => exact congrArg (after events) bind_pure.symm
      | failed => exact congrArg (after events) bind_pure.symm
    | undefined | diverged | outOfFuel => rfl
  | cons c₁ cs ih =>
    have hrest := ih c₁
    rw [List.cons_append, askOn]
    cases hc : c s with
    | done answer s' events =>
      rw [hc] at hrest
      cases answer with
      | found a =>
        rw [bind_eq hrest]
        exact congrArg (Outcome.done _ _) (List.append_nil _)
      | passed => exact bind_after hrest
      | failed => exact bind_after hrest
    | undefined | diverged | outOfFuel =>
      rw [hc] at hrest
      simp only [bind, hrest]

/-! ## Lost failures and hidden finds -/

/-- What is seen of an outcome -/
def viewed (f : α → β) : Outcome σ ε α → Outcome σ ε β
  | .done a s events => .done (f a) s events
  | .undefined s => .undefined s
  | .diverged s call => .diverged s call
  | .outOfFuel => .outOfFuel

theorem bind_view (f : α → β) (m : Traced σ ε α) (s : σ) :
    (m >>= fun a => pure (f a)) s = viewed f (m s) := by
  simp only [bind]
  cases m s with
  | done a s' events => exact congrArg (Outcome.done _ _) (List.append_nil _)
  | undefined | diverged | outOfFuel => rfl

private theorem viewed_after (f : α → β) (events : List ε) (out : Outcome σ ε α) :
    viewed f (after events out) = after events (viewed f out) := by
  cases out <;> rfl

theorem viewed_eq_done {f : α → β} {out : Outcome σ ε α} {b : β} :
    viewed f out = .done b s events ↔ ∃ a, f a = b ∧ out = .done a s events := by
  constructor
  · intro h
    cases out with
    | done a s' events' =>
      cases h
      exact ⟨a, rfl, rfl⟩
    | undefined | diverged | outOfFuel => cases h
  · rintro ⟨a, rfl, rfl⟩
    rfl

private theorem done_eq_after {b : β} {out : Outcome σ ε β} :
    .done b s events = after events out ↔ out = .done b s [] := by
  cases out with
  | done b' s' events' =>
    constructor
    · intro h
      obtain ⟨rfl, rfl, hevents⟩ := Outcome.done.inj h
      rw [List.self_eq_append_right.mp hevents]
    · rintro ⟨⟩
      exact congrArg (Outcome.done _ _) (List.append_nil _).symm
  | undefined | diverged | outOfFuel => exact iff_of_false nofun nofun

variable {ι : Type} {code spec : ι → Traced σ ε (Answer α)} {view : Answer α → β}
  {c : Traced σ ε (Answer α)} {i : ι} {is : List ι}

/-- `spec` answers like `code`, but may pass where that finds something. -/
def Hides (code spec : ι → Traced σ ε (Answer α)) : Prop :=
  ∀ i s, spec i s = code i s ∨ ∃ a s' events,
    code i s = .done (.found a) s' events ∧ spec i s = .done .passed s' events

/-- It makes no difference that the candidates of `is` and `c` are asked after `i` has failed, or
has found what `spec i` does not look for. -/
structure Harmless (view : Answer α → β) (code spec : ι → Traced σ ε (Answer α))
    (c : Traced σ ε (Answer α)) (is : List ι) (i : ι) (s : σ) : Prop where
  failed : ∀ s' events, code i s = .done .failed s' events →
    ∃ answer, answer.get? = none ∧ askOn (c :: is.map code) s' = .done answer s' []
  hidden : ∀ a s' events, code i s = .done (.found a) s' events →
    spec i s = .done .passed s' events →
    ∃ answer, view answer = view (.found a) ∧ ask (c :: is.map spec) s' = .done answer s' []

/-- Wherever the candidates part for the first time, it is harmless. -/
def PartsHarmlessly (view : Answer α → β) (code spec : ι → Traced σ ε (Answer α))
    (c : Traced σ ε (Answer α)) (is : List ι) (s : σ) : Prop :=
  ∀ upper i lower s' events, is = upper ++ i :: lower →
    ask (lower.map code) s = .done .passed s' events → Harmless view code spec c upper i s'

private theorem partsHarmlessly_concat : PartsHarmlessly view code spec c (is ++ [i]) s ↔
    Harmless view code spec c is i s ∧ ∀ s' events, code i s = .done .passed s' events →
      PartsHarmlessly view code spec c is s' := by
  constructor
  · intro h
    refine ⟨h is i [] s [] rfl rfl, ?_⟩
    rintro s' events hpassed upper j lower s'' events' rfl hlower
    apply h upper j (lower ++ [i]) s'' (events ++ events')
    · rw [List.append_assoc, List.cons_append]
    · rw [List.map_append, List.map_singleton, ask_concat, hpassed]
      dsimp only
      rw [hlower]
      rfl
  · rintro ⟨hfirst, hrest⟩ upper j lower s' events hsplit hlower
    obtain rfl | ⟨lower, i', rfl⟩ := List.eq_nil_or_concat lower
    · obtain ⟨rfl, heq⟩ := List.append_inj' hsplit rfl
      obtain ⟨rfl, -⟩ := List.cons.inj heq
      cases hlower
      exact hfirst
    · rw [List.concat_eq_append, ← List.cons_append, ← List.append_assoc] at hsplit
      obtain ⟨rfl, heq⟩ := List.append_inj' hsplit rfl
      obtain ⟨rfl, -⟩ := List.cons.inj heq
      rw [List.concat_eq_append, List.map_append, List.map_singleton, ask_concat] at hlower
      cases hi : code i s with
      | done answer s₁ events₁ =>
        rw [hi] at hlower
        cases answer with
        | passed =>
          dsimp only at hlower
          cases hask : ask (lower.map code) s₁ with
          | done answer s₂ events₂ =>
            rw [hask] at hlower
            cases hlower
            exact hrest s₁ events₁ hi upper j lower _ _ rfl hask
          | undefined | diverged | outOfFuel =>
            rw [hask] at hlower
            cases hlower
        | found a => cases hlower
        | failed => cases hlower
      | undefined | diverged | outOfFuel =>
        rw [hi] at hlower
        cases hlower

private theorem Hides.eq_of_not_found (hhides : Hides code spec) {i : ι} {s : σ}
    (h : ∀ a s' events, code i s ≠ .done (.found a) s' events) : spec i s = code i s := by
  obtain hsame | ⟨a, s₁, events₁, hfound, -⟩ := hhides i s
  · exact hsame
  · exact absurd hfound (h a s₁ events₁)

/-- To one who does not see failures, asking the candidates of `code` on and on is like asking
those of `spec` when it is harmless where they part. -/
theorem askOn_view_eq_iff (hhides : Hides code spec)
    (hview : ∀ answer, view answer = view .failed ↔ answer.get? = none)
    (c : Traced σ ε (Answer α)) (is : List ι) (s : σ) :
    (askOn (c :: is.map code) >>= fun answer => pure (view answer)) s =
      (ask (c :: is.map spec) >>= fun answer => pure (view answer)) s ↔
      PartsHarmlessly view code spec c is s := by
  rw [bind_view, bind_view]
  induction is using List.reverseRecOn generalizing s with
  | nil => exact iff_of_true rfl fun upper i lower _ _ hsplit => by simp at hsplit
  | append_singleton is i ih =>
    rw [partsHarmlessly_concat, List.map_append, List.map_append, List.map_singleton,
      List.map_singleton, askOn_concat, ← List.cons_append, ask_concat]
    cases hi : code i s with
    | done answer s' events =>
      cases answer with
      | passed =>
        have hspec : spec i s = .done .passed s' events := by
          rw [hhides.eq_of_not_found (by simp [hi]), hi]
        rw [hspec]
        dsimp only
        rw [viewed_after, viewed_after, after_injective, ih s']
        constructor
        · intro h
          refine ⟨⟨?_, ?_⟩, ?_⟩
          · rintro s₁ events₁ hfailed
            rw [hi] at hfailed
            cases hfailed
          · rintro a s₁ events₁ hfound
            rw [hi] at hfound
            cases hfound
          · rintro _ _ ⟨⟩
            exact h
        · exact fun h => h.2 s' events rfl
      | failed =>
        have hspec : spec i s = .done .failed s' events := by
          rw [hhides.eq_of_not_found (by simp [hi]), hi]
        rw [hspec]
        dsimp only
        have hiff : viewed view (after events (askOn (c :: is.map code) s')) =
            .done (view .failed) s' events ↔ ∃ answer, answer.get? = none ∧
              askOn (c :: is.map code) s' = .done answer s' [] := by
          rw [viewed_after, eq_comm, done_eq_after, viewed_eq_done]
          simp only [hview]
        refine hiff.trans ⟨fun h => ⟨⟨?_, ?_⟩, ?_⟩, fun h => h.1.failed s' events hi⟩
        · intro s₁ events₁ hfailed
          rw [hi] at hfailed
          cases hfailed
          exact h
        · intro a s₁ events₁ hfound
          rw [hi] at hfound
          cases hfound
        · exact fun _ _ => nofun
      | found a =>
        obtain hsame | ⟨a', s₁, events₁, hfound, hspec⟩ := hhides i s
        · rw [hsame, hi]
          refine iff_of_true rfl ⟨⟨?_, ?_⟩, fun _ _ => nofun⟩
          · intro s₁ events₁ hfailed
            rw [hi] at hfailed
            cases hfailed
          · intro a' s₁ events₁ hfound hspec
            rw [hsame, hi] at hspec
            cases hspec
        · rw [hi] at hfound
          cases hfound
          rw [hspec]
          dsimp only
          have hiff : viewed view (.done (.found a) s' events) =
              viewed view (after events (ask (c :: is.map spec) s')) ↔
              ∃ answer, view answer = view (.found a) ∧
                ask (c :: is.map spec) s' = .done answer s' [] := by
            rw [viewed_after]
            exact done_eq_after.trans viewed_eq_done
          refine hiff.trans ⟨fun h => ⟨⟨?_, ?_⟩, fun _ _ => nofun⟩,
            fun h => h.1.hidden a s' events hi hspec⟩
          · intro s₁ events₁ hfailed
            rw [hi] at hfailed
            cases hfailed
          · intro a' s₁ events₁ hfound hpassed
            rw [hi] at hfound
            cases hfound
            exact h
    | undefined | diverged | outOfFuel =>
      have hspec := hhides.eq_of_not_found (i := i) (s := s) (by simp [hi])
      rw [hspec, hi]
      refine iff_of_true rfl ⟨⟨fun _ _ hfailed => ?_, fun _ _ _ hfound => ?_⟩, fun _ _ => nofun⟩
      · rw [hi] at hfailed
        cases hfailed
      · rw [hi] at hfound
        cases hfound

/-- The rest of a lookup is looked for when the candidates have been asked. -/
theorem askOn_cons_view (view : Answer α → β) (c : Traced σ ε (Answer α))
    (below : List (Traced σ ε (Answer α))) :
    (askOn (c :: below) >>= fun answer => pure (view answer)) = askOn below >>= fun answer =>
      match answer with
        | .found a => pure (view (.found a))
        | .passed => c >>= fun answer => pure (view answer)
        | .failed => c >>= fun answer => pure (view answer) := by
  rw [askOn, bind_assoc]
  congr 1
  funext answer
  cases answer with
  | found a =>
    funext s
    exact bind_pure
  | passed => rfl
  | failed => rfl

/-! ## Errors -/

variable {δ : Type} {error : ε → Option δ} {failed : δ → α → σ → Prop}

/-- No event follows one with an error, and then the program ends as `failed` says. -/
def ErrorEnds (error : ε → Option δ) (failed : δ → α → σ → Prop) (m : Traced σ ε α) : Prop :=
  ∀ s a s' front e back err, m s = .done a s' (front ++ e :: back) → error e = some err →
    back = [] ∧ failed err a s'

namespace ErrorEnds

theorem of_silent {m : Traced σ ε α} (h : ∀ s a s' events, m s = .done a s' events → events = []) :
    ErrorEnds error failed m := by
  intro s a s' front e back err hdone _
  cases List.append_eq_nil_iff.mp (h s a s' _ hdone) with
  | intro _ hcons => cases hcons

theorem pure (a : α) : ErrorEnds error failed (Pure.pure a : Traced σ ε α) := by
  apply of_silent
  rintro s _ _ _ ⟨⟩
  rfl

theorem read (f : σ → α) : ErrorEnds error failed (Traced.read f : Traced σ ε α) := by
  apply of_silent
  rintro s _ _ _ ⟨⟩
  rfl

theorem step (f : σ → Option (α × σ)) : ErrorEnds error failed (Traced.step f : Traced σ ε α) := by
  apply of_silent
  intro s a s' events h
  unfold Traced.step at h
  split at h
  · cases h
    rfl
  · cases h

theorem modify {failed : δ → Unit → σ → Prop} (f : σ → σ) :
    ErrorEnds error failed (Traced.modify f : Traced σ ε Unit) := by
  apply of_silent
  rintro s _ _ _ ⟨⟩
  rfl

/-- What follows a failure emits nothing and fails too. -/
theorem bind {m : Traced σ ε α} {k : α → Traced σ ε β} {failed' : δ → β → σ → Prop}
    (hm : ErrorEnds error failed m) (hk : ∀ a, ErrorEnds error failed' (k a))
    (hfailed : ∀ err a s b s' events, failed err a s → k a s = .done b s' events →
      events = [] ∧ failed' err b s') :
    ErrorEnds error failed' (m >>= k) := by
  intro s b s' front e back err h herr
  obtain ⟨a, s₁, events₁, events₂, ha, hb, hevents⟩ := bind_done.mp h
  obtain ⟨middle, rfl, hback⟩ | ⟨middle, rfl, rfl⟩ := List.append_eq_append_iff.mp hevents
  · obtain ⟨rfl, rfl⟩ | ⟨middle, rfl, rfl⟩ := List.cons_eq_append_iff.mp hback
    · exact hk a s₁ b s' [] e back err hb herr
    · obtain ⟨rfl, hfail⟩ := hm s a s₁ front e middle err ha herr
      obtain ⟨rfl, hfail'⟩ := hfailed err a s₁ b s' events₂ hfail hb
      exact ⟨rfl, hfail'⟩
  · exact hk a s₁ b s' middle e back err hb herr

/-- A beginning without errors -/
theorem bind_right {m : Traced σ ε α} {k : α → Traced σ ε β} {failed' : δ → β → σ → Prop}
    (hm : ErrorEnds error (fun _ _ _ => False) m) (hk : ∀ a, ErrorEnds error failed' (k a)) :
    ErrorEnds error failed' (m >>= k) :=
  hm.bind hk fun _ _ _ _ _ _ h => h.elim

theorem ask {left : σ → δ}
    (h : ∀ c ∈ cs, ErrorEnds error (fun err answer s => answer = .failed ∧ left s = err) c) :
    ErrorEnds error (fun err answer s => answer = .failed ∧ left s = err) (ask cs) := by
  induction cs with
  | nil => exact .pure _
  | cons c below ih =>
    obtain ⟨hc, hbelow⟩ := List.forall_mem_cons.mp h
    apply bind (ih hbelow)
    · intro answer
      cases answer with
      | found a => exact .pure _
      | passed => exact hc
      | failed => exact .pure _
    · rintro err answer s b s' events ⟨rfl, hleft⟩ hb
      cases hb
      exact ⟨rfl, rfl, hleft⟩

end ErrorEnds

/-! ## Candidates that do nothing of their own -/

/-- A program that does not return without an event -/
def Emits (m : Traced σ ε α) : Prop := ∀ s a s', m s ≠ .done a s' []

theorem Emits.bind_left {m : Traced σ ε α} (h : Emits m) (k : α → Traced σ ε β) :
    Emits (m >>= k) := by
  intro s b s' hdone
  obtain ⟨a, s₁, events₁, events₂, hm, -, hevents⟩ := bind_done.mp hdone
  obtain ⟨rfl, -⟩ := List.append_eq_nil_iff.mp hevents.symm
  exact h s a s₁ hm

theorem Emits.bind_right {k : α → Traced σ ε β} (h : ∀ a, Emits (k a)) (m : Traced σ ε α) :
    Emits (m >>= k) := by
  intro s b s' hdone
  obtain ⟨a, s₁, events₁, events₂, -, hk, hevents⟩ := bind_done.mp hdone
  obtain ⟨-, rfl⟩ := List.append_eq_nil_iff.mp hevents.symm
  exact h a s₁ b s' hk

/-- When each candidate that neither finds nor emits anything does `f` where it is quiet, candidates
leave the state as it is just when they are quiet and `f` does. -/
theorem askOn_quiet_iff {ι : Type} {c : ι → Traced σ ε (Answer α)} {quiet : ι → σ → Prop}
    {f : σ → σ} (hc : ∀ i s answer s', answer.get? = none →
      (c i s = .done answer s' [] ↔ quiet i s ∧ answer = .passed ∧ s' = f s))
    (hquiet : ∀ i s, quiet i (f s) ↔ quiet i s) (hf : ∀ s, f (f s) = f s) {is : List ι}
    (hne : is ≠ []) (s : σ) :
    (∃ answer, answer.get? = none ∧ askOn (is.map c) s = .done answer s []) ↔
      (∀ i ∈ is, quiet i s) ∧ f s = s := by
  have hrun : ∀ answer s', answer.get? = none → (askOn (is.map c) s = .done answer s' [] ↔
      (∀ i ∈ is, quiet i s) ∧ answer = .passed ∧ s' = f s) := by
    induction is with
    | nil => exact absurd rfl hne
    | cons i is ih =>
      intro answer s' hnone
      cases is with
      | nil =>
        have hone : askOn [c i] s = c i s := bind_pure
        rw [List.map_singleton, hone, hc i s answer s' hnone, List.forall_mem_singleton]
      | cons j is =>
        rw [List.forall_mem_cons]
        constructor
        · intro h
          obtain ⟨below, s₁, events₁, events₂, hbelow, hi, hevents⟩ := bind_done.mp h
          obtain ⟨rfl, rfl⟩ := List.append_eq_nil_iff.mp hevents.symm
          have hbelow' : below.get? = none := by
            cases below with
            | found a =>
              cases hi
              cases hnone
            | passed => rfl
            | failed => rfl
          obtain ⟨hall, rfl, rfl⟩ := (ih nofun below s₁ hbelow').mp hbelow
          obtain ⟨hquieti, rfl, rfl⟩ := (hc i (f s) answer s' hnone).mp hi
          exact ⟨⟨(hquiet i s).mp hquieti, hall⟩, rfl, hf s⟩
        · rintro ⟨⟨hquieti, hall⟩, rfl, rfl⟩
          have hbelow : askOn ((j :: is).map c) s = .done .passed (f s) [] :=
            (ih nofun .passed (f s) rfl).mpr ⟨hall, rfl, rfl⟩
          have hi : c i (f s) = .done .passed (f s) [] :=
            (hc i (f s) .passed (f s) rfl).mpr ⟨(hquiet i s).mpr hquieti, rfl, (hf s).symm⟩
          rw [List.map_cons, askOn, bind_eq hbelow]
          dsimp only
          rw [hi]
          rfl
  constructor
  · rintro ⟨answer, hnone, hdone⟩
    obtain ⟨hall, -, hs⟩ := (hrun answer s hnone).mp hdone
    exact ⟨hall, hs.symm⟩
  · rintro ⟨hall, hs⟩
    exact ⟨.passed, rfl, (hrun _ s rfl).mpr ⟨hall, rfl, hs.symm⟩⟩

end Squirt.Traced
