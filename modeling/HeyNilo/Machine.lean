import Mathlib.Data.Option.Basic

namespace Machine

variable {σ ε γ : Type*} {step : σ → ε → Option σ}

/-- Run a partial step function over a list of events, left to right. -/
def run (step : σ → ε → Option σ) : σ → List ε → Option σ
  | s, [] => some s
  | s, e :: es => (step s e).bind fun t => run step t es

/-- Every event of the list meets `ok` in the state it is taken from. -/
def Meets (step : σ → ε → Option σ) (ok : σ → ε → Prop) : σ → List ε → Prop
  | _, [] => True
  | s, e :: es => ok s e ∧ ∀ t, step s e = some t → Meets step ok t es

instance decidableMeets {ok : σ → ε → Prop} [∀ s e, Decidable (ok s e)] :
    ∀ s es, Decidable (Meets step ok s es)
  | _, [] => isTrue trivial
  | s, e :: es =>
    have : Decidable (∀ t, step s e = some t → Meets step ok t es) :=
      match step s e with
      | none => isTrue fun _ h => nomatch h
      | some t =>
        have : Decidable (Meets step ok t es) := decidableMeets t es
        decidable_of_iff (Meets step ok t es)
          ⟨fun h _ ht => Option.some.inj ht ▸ h, fun h => h t rfl⟩
    inferInstanceAs (Decidable (_ ∧ _))

/-- `P` holds in the first state and after every event. -/
def Always (step : σ → ε → Option σ) (P : σ → Prop) : σ → List ε → Prop
  | s, [] => P s
  | s, e :: es => P s ∧ ∀ t, step s e = some t → Always step P t es

/-- Pair a machine with a history variable that only observes it. -/
def withHistory (step : σ → ε → Option σ) (next : γ → σ → ε → γ) :
    σ × γ → ε → Option (σ × γ)
  | (s, g), e => (step s e).map fun t => (t, next g s e)

theorem run_cons_iff {s u : σ} {e : ε} {es : List ε} :
    run step s (e :: es) = some u ↔ ∃ t, step s e = some t ∧ run step t es = some u :=
  Option.bind_eq_some_iff

theorem run_append {s : σ} {es es' : List ε} :
    run step s (es ++ es') = (run step s es).bind fun t => run step t es' := by
  induction es generalizing s with
  | nil => rfl
  | cons e es ih =>
    simp only [List.cons_append, run, ih, Option.bind_assoc]

/-- An invariant kept by every step that meets `ok` survives a run that meets it. -/
theorem run_invariant {ok : σ → ε → Prop} {I : σ → Prop}
    (keep : ∀ s e t, I s → ok s e → step s e = some t → I t)
    {s u : σ} {es : List ε} (hs : I s) (hm : Meets step ok s es)
    (hr : run step s es = some u) : I u := by
  induction es generalizing s with
  | nil => cases Option.some.inj hr; exact hs
  | cons e es ih =>
    obtain ⟨t, ht, hr⟩ := run_cons_iff.mp hr
    exact ih (keep s e t hs hm.1 ht) (hm.2 t ht) hr

theorem meets_of_forall {ok : σ → ε → Prop} (h : ∀ s e, ok s e) (s : σ) (es : List ε) :
    Meets step ok s es := by
  induction es generalizing s with
  | nil => trivial
  | cons e es ih => exact ⟨h s e, fun t _ => ih t⟩

theorem Meets.mono {ok ok' : σ → ε → Prop} (h : ∀ s e, ok s e → ok' s e) {s : σ} {es : List ε}
    (hm : Meets step ok s es) : Meets step ok' s es := by
  induction es generalizing s with
  | nil => trivial
  | cons e es ih => exact ⟨h s e hm.1, fun t ht => ih (hm.2 t ht)⟩

theorem Meets.and {ok ok' : σ → ε → Prop} {s : σ} {es : List ε} (hm : Meets step ok s es)
    (hm' : Meets step ok' s es) : Meets step (fun s e => ok s e ∧ ok' s e) s es := by
  induction es generalizing s with
  | nil => trivial
  | cons e es ih => exact ⟨⟨hm.1, hm'.1⟩, fun t ht => ih (hm.2 t ht) (hm'.2 t ht)⟩

/-- The rest of a list that meets `ok`, after a run of its first part. -/
theorem meets_after {ok : σ → ε → Prop} {s t : σ} {es more : List ε}
    (h : Meets step ok s (es ++ more)) (hr : run step s es = some t) : Meets step ok t more := by
  induction es generalizing s with
  | nil => cases Option.some.inj hr; exact h
  | cons e es ih =>
    obtain ⟨u, hu, hr⟩ := run_cons_iff.mp hr
    exact ih (h.2 u hu) hr

theorem run_preserves {I : σ → Prop} (keep : ∀ s e t, I s → step s e = some t → I t)
    {s u : σ} {es : List ε} (hs : I s) (hr : run step s es = some u) : I u :=
  have hm : Meets step (fun _ _ => True) s es := meets_of_forall (fun _ _ => trivial) s es
  run_invariant (fun s e t hi _ ht => keep s e t hi ht) hs hm hr

theorem always_head {P : σ → Prop} {s : σ} {es : List ε} (h : Always step P s es) : P s := by
  cases es with
  | nil => exact h
  | cons e es => exact h.1

theorem always_run {P : σ → Prop} {s t : σ} {es : List ε} (h : Always step P s es)
    (hr : run step s es = some t) : P t := by
  induction es generalizing s with
  | nil =>
    cases Option.some.inj hr
    exact h
  | cons e es ih =>
    obtain ⟨u, hu, hr⟩ := run_cons_iff.mp hr
    exact ih (h.2 u hu) hr

/-- If the steps of `win` that meet `ok` keep an invariant that implies `P`, and each other step of
`win` from a state of the invariant breaks `P`, then `P` holds all along a run of such steps exactly
when the run meets `ok`. -/
theorem always_iff_meets_within {win ok : σ → ε → Prop} {I P : σ → Prop} (hP : ∀ s, I s → P s)
    (keep : ∀ s e t, I s → win s e → ok s e → step s e = some t → I t)
    (breaks : ∀ s e t, I s → win s e → ¬ ok s e → step s e = some t → ¬ P t)
    {s u : σ} {es : List ε} (hs : I s) (hw : Meets step win s es) (hr : run step s es = some u) :
    Always step P s es ↔ Meets step ok s es := by
  induction es generalizing s with
  | nil => exact ⟨fun _ => trivial, fun _ => hP s hs⟩
  | cons e es ih =>
    obtain ⟨t, ht, hr⟩ := run_cons_iff.mp hr
    obtain ⟨hwin, hw⟩ := hw
    constructor
    · intro h
      have hnext := h.2 t ht
      have hok : ok s e := by
        by_contra hok
        exact breaks s e t hs hwin hok ht (always_head hnext)
      refine ⟨hok, fun v hv => ?_⟩
      cases Option.some.inj (ht.symm.trans hv)
      exact (ih (keep s e t hs hwin hok ht) (hw t ht) hr).mp hnext
    · intro h
      refine ⟨hP s hs, fun v hv => ?_⟩
      cases Option.some.inj (ht.symm.trans hv)
      exact (ih (keep s e t hs hwin h.1 ht) (hw t ht) hr).mpr (h.2 t ht)

theorem always_iff_meets {ok : σ → ε → Prop} {I P : σ → Prop} (hP : ∀ s, I s → P s)
    (keep : ∀ s e t, I s → ok s e → step s e = some t → I t)
    (breaks : ∀ s e t, I s → ¬ ok s e → step s e = some t → ¬ P t)
    {s u : σ} {es : List ε} (hs : I s) (hr : run step s es = some u) :
    Always step P s es ↔ Meets step ok s es :=
  have hw : Meets step (fun _ _ => True) s es := meets_of_forall (fun _ _ => trivial) s es
  always_iff_meets_within hP (fun s e t hi _ => keep s e t hi) (fun s e t hi _ => breaks s e t hi)
    hs hw hr

/-- `P` all along a run, and `ok` at every event, as one condition on the events. -/
theorem always_and_meets_iff {P : σ → Prop} {ok : σ → ε → Prop} {s : σ} {es : List ε} (hs : P s) :
    Always step P s es ∧ Meets step ok s es ↔
      Meets step (fun s e => ok s e ∧ ∀ t, step s e = some t → P t) s es := by
  induction es generalizing s with
  | nil => exact ⟨fun _ => trivial, fun _ => ⟨hs, trivial⟩⟩
  | cons e es ih =>
    constructor
    · rintro ⟨⟨_, halways⟩, hok, hmeets⟩
      have hnext (t : σ) (ht : step s e = some t) : P t := always_head (halways t ht)
      exact ⟨⟨hok, hnext⟩, fun t ht => (ih (hnext t ht)).mp ⟨halways t ht, hmeets t ht⟩⟩
    · rintro ⟨⟨hok, hnext⟩, hmore⟩
      have hboth (t : σ) (ht : step s e = some t) := (ih (hnext t ht)).mpr (hmore t ht)
      exact ⟨⟨hs, fun t ht => (hboth t ht).1⟩, hok, fun t ht => (hboth t ht).2⟩

theorem withHistory_iff {next : γ → σ → ε → γ} {s t : σ} {g h : γ} {e : ε} :
    withHistory step next (s, g) e = some (t, h) ↔ step s e = some t ∧ h = next g s e := by
  simp only [withHistory, Option.map_eq_some_iff, Prod.mk.injEq]
  constructor
  · rintro ⟨a, ha, rfl, rfl⟩
    exact ⟨ha, rfl⟩
  · rintro ⟨ha, rfl⟩
    exact ⟨t, ha, rfl, rfl⟩

theorem always_of_meets {ok : σ → ε → Prop} {I P : σ → Prop} (hP : ∀ s, I s → P s)
    (keep : ∀ s e t, I s → ok s e → step s e = some t → I t) {s : σ} {es : List ε} (hs : I s)
    (hm : Meets step ok s es) : Always step P s es := by
  induction es generalizing s with
  | nil => exact hP s hs
  | cons e es ih => exact ⟨hP s hs, fun t ht => ih (keep s e t hs hm.1 ht) (hm.2 t ht)⟩

/-- Two conditions that agree on the states of an invariant, kept by the steps that meet one of them,
are met by the same runs. -/
theorem meets_iff_meets {ok ok' : σ → ε → Prop} {I : σ → Prop}
    (keep : ∀ s e t, I s → ok' s e → step s e = some t → I t)
    (same : ∀ s e t, I s → step s e = some t → (ok s e ↔ ok' s e)) {s u : σ} {es : List ε}
    (hs : I s) (hr : run step s es = some u) : Meets step ok s es ↔ Meets step ok' s es := by
  induction es generalizing s with
  | nil => exact Iff.rfl
  | cons e es ih =>
    obtain ⟨t, ht, hr⟩ := run_cons_iff.mp hr
    have hsame := same s e t hs ht
    constructor
    · rintro ⟨hok, hmore⟩
      have hok' := hsame.mp hok
      refine ⟨hok', fun v hv => ?_⟩
      cases Option.some.inj (ht.symm.trans hv)
      exact (ih (keep s e t hs hok' ht) hr).mp (hmore t ht)
    · rintro ⟨hok', hmore⟩
      refine ⟨hsame.mpr hok', fun v hv => ?_⟩
      cases Option.some.inj (ht.symm.trans hv)
      exact (ih (keep s e t hs hok' ht) hr).mpr (hmore t ht)

/-- A run meets `ok` and keeps the invariant, or its first other step leads to `J`, for good. -/
theorem run_meets_or {ok : σ → ε → Prop} {I J : σ → Prop}
    (keep : ∀ s e t, I s → ok s e → step s e = some t → I t)
    (breaks : ∀ s e t, I s → ¬ ok s e → step s e = some t → J t)
    (stay : ∀ s e t, J s → step s e = some t → J t)
    {s u : σ} {es : List ε} (hs : I s) (hr : run step s es = some u) :
    Meets step ok s es ∧ I u ∨ ¬ Meets step ok s es ∧ J u := by
  induction es generalizing s with
  | nil =>
    cases Option.some.inj hr
    exact .inl ⟨trivial, hs⟩
  | cons e es ih =>
    obtain ⟨t, ht, hr⟩ := run_cons_iff.mp hr
    by_cases hok : ok s e
    · rcases ih (keep s e t hs hok ht) hr with ⟨hm, hu⟩ | ⟨hm, hu⟩
      · refine .inl ⟨⟨hok, fun v hv => ?_⟩, hu⟩
        cases Option.some.inj (ht.symm.trans hv)
        exact hm
      · exact .inr ⟨fun hmeets => hm (hmeets.2 t ht), hu⟩
    · exact .inr ⟨fun hmeets => hok hmeets.1, run_preserves stay (breaks s e t hs hok ht) hr⟩

theorem run_total (h : ∀ s e, ∃ t, step s e = some t) (s : σ) (es : List ε) :
    ∃ u, run step s es = some u := by
  induction es generalizing s with
  | nil => exact ⟨s, rfl⟩
  | cons e es ih =>
    obtain ⟨t, ht⟩ := h s e
    obtain ⟨u, hu⟩ := ih t
    exact ⟨u, run_cons_iff.mpr ⟨t, ht, hu⟩⟩

/-- An invariant that the events of a list keep survives a run over it. -/
theorem run_keeps {I : σ → Prop} {es : List ε}
    (keep : ∀ s t, ∀ e ∈ es, I s → step s e = some t → I t) {s u : σ} (hs : I s)
    (hr : run step s es = some u) : I u := by
  induction es generalizing s with
  | nil =>
    cases Option.some.inj hr
    exact hs
  | cons e es ih =>
    obtain ⟨t, ht, hr⟩ := run_cons_iff.mp hr
    have hnext : I t := keep s t e (List.mem_cons_self ..) hs ht
    exact ih (fun s t e he => keep s t e (List.mem_cons_of_mem _ he)) hnext hr

/-- Where every own step is paid for out of a budget, it bounds how many of them a run takes. -/
theorem run_pays {own : ε → Bool} {budget : σ → Nat} {es : List ε}
    (pays : ∀ s t, ∀ e ∈ es, step s e = some t → (if own e then 1 else 0) + budget t ≤ budget s)
    {s u : σ} (hr : run step s es = some u) : (es.filter own).length + budget u ≤ budget s := by
  induction es generalizing s with
  | nil =>
    cases Option.some.inj hr
    simp only [List.filter_nil, List.length_nil, Nat.zero_add, Nat.le_refl]
  | cons e es ih =>
    obtain ⟨t, ht, hr⟩ := run_cons_iff.mp hr
    have hstep := pays s t e (List.mem_cons_self ..) ht
    have hrest := ih (fun s t e he => pays s t e (List.mem_cons_of_mem _ he)) hr
    rw [List.filter_cons]
    split at hstep
    next hown =>
      rw [if_pos hown, List.length_cons]
      omega
    next hown =>
      rw [if_neg hown]
      omega

end Machine
