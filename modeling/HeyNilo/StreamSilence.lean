import HeyNilo.OnlineStream

namespace HeyNilo

/-- What is about to be emitted is no partial text and no error that comes from the cancelled call. -/
def StreamPhase.silent : StreamPhase → Bool
  | .emitting response _ byCancel => response.isComplete && !byCancel
  | .preparing | .calling | .reading | .ended => true

namespace OnlineStream

open OnlineLLMProvider

/-- Once `cancelGeneration` has returned the step appends no text and emits no partial text and no error
of the cancelled call. -/
def Quiet (s t : OnlineStream) : Prop :=
  s.cancelled = true → t.fullResponse = s.fullResponse ∧ (t.emitted = s.emitted ∨ s.phase.silent = true)

variable (parse : Text → Option JSONObject) (p : OnlineLLMProvider)

/-- The text that a line adds to the response. -/
def lineText (line : Text) : Text :=
  if dataField.isPrefixOf line then
    match p.provider with
    | .claude | .kimi =>
      match claudeEvent parse (line.drop 6) with
      | some (.delta text) => text
      | _ => []
    | .openai | .deepseek | .openrouter | .offline =>
      if line.drop 6 = "[DONE]".toList then [] else chunkContent parse (line.drop 6)
  else []

/-- The call of `cancelGeneration` comes between no text and its emission, no line read after it carries
text, and neither `execute` nor a read of a call that it cancelled throws. -/
def NothingToCome (s : OnlineStream) : Event → Prop
  | .cancelGeneration => s.phase.silent = true
  | .readLine => s.cancelled = true → ∀ line ∈ s.buffered.head?, lineText parse p line = []
  | .execute (.threw _) | .readThrows _ => s.callCancelled = false
  | _ => True

structure Inv (s : OnlineStream) : Prop where
  called : s.callCancelled = true → s.cancelled = true
  silent : s.cancelled = true → s.phase.silent = true

/-- The stream has been cancelled and is about to emit all the same. -/
def Doomed (s : OnlineStream) : Prop := s.cancelled = true ∧ s.phase.silent = false

variable {parse p} {s t : OnlineStream} {e : Event}

theorem claudeEvent_delta {data text : Text} (h : claudeEvent parse data = some (.delta text)) :
    text ≠ [] := by
  obtain ⟨json, -, h⟩ := Option.bind_eq_some_iff.mp h
  change ite _ _ _ = _ at h
  split at h
  · obtain ⟨delta, -, h⟩ := Option.bind_eq_some_iff.mp h
    change ite _ _ _ = _ at h
    split at h
    · cases h
    · rename_i hempty
      cases h
      exact fun hnil => hempty (by rw [hnil]; rfl)
  · split at h
    · cases h
    · cases h

/-- A line either adds its text or leads to the final response at most. -/
theorem readLine_cases (s : OnlineStream) (line : Text) :
    lineText parse p line ≠ [] ∧ s.readLine parse p line = s.append (lineText parse p line) ∨
      lineText parse p line = [] ∧ (s.readLine parse p line = s ∨ ∃ goesOn, s.readLine parse p line =
        { s with phase := .emitting (.completed s.fullResponse) goesOn false }) := by
  have hopenAI : ∀ text : Text, text = (if dataField.isPrefixOf line then
      if line.drop 6 = "[DONE]".toList then [] else chunkContent parse (line.drop 6) else []) →
      text ≠ [] ∧ s.openAILine parse line = s.append text ∨
        text = [] ∧ (s.openAILine parse line = s ∨ ∃ goesOn, s.openAILine parse line =
          { s with phase := .emitting (.completed s.fullResponse) goesOn false }) := by
    rintro text rfl
    unfold openAILine
    split
    · dsimp only
      split
      · exact .inr ⟨rfl, .inr ⟨false, rfl⟩⟩
      · cases hcontent : chunkContent parse (line.drop 6) with
        | nil => exact .inr ⟨rfl, .inl rfl⟩
        | cons c content => exact .inl ⟨List.cons_ne_nil _ _, rfl⟩
    · exact .inr ⟨rfl, .inl rfl⟩
  have hclaude : ∀ text : Text, text = (if dataField.isPrefixOf line then
      match claudeEvent parse (line.drop 6) with
      | some (.delta text) => text
      | _ => [] else []) →
      text ≠ [] ∧ s.claudeLine parse line = s.append text ∨
        text = [] ∧ (s.claudeLine parse line = s ∨ ∃ goesOn, s.claudeLine parse line =
          { s with phase := .emitting (.completed s.fullResponse) goesOn false }) := by
    rintro text rfl
    unfold claudeLine
    split
    · cases hevent : claudeEvent parse (line.drop 6) with
      | none => exact .inr ⟨rfl, .inl rfl⟩
      | some event =>
        cases event with
        | delta text => exact .inl ⟨claudeEvent_delta hevent, rfl⟩
        | stop => exact .inr ⟨rfl, .inr ⟨true, rfl⟩⟩
    · exact .inr ⟨rfl, .inl rfl⟩
  unfold readLine lineText
  cases p.provider with
  | claude => exact hclaude _ rfl
  | kimi => exact hclaude _ rfl
  | openai => exact hopenAI _ rfl
  | deepseek => exact hopenAI _ rfl
  | openrouter => exact hopenAI _ rfl
  | offline => exact hopenAI _ rfl

theorem prepare_spec (s : OnlineStream) : ∃ phase registered, phase.silent = true ∧
    s.prepare p = { s with phase := phase, callRegistered := registered } := by
  unfold prepare
  split
  · cases p.provider with
    | claude => exact ⟨.calling, s.callRegistered, rfl, rfl⟩
    | kimi => exact ⟨.calling, s.callRegistered, rfl, rfl⟩
    | openai => exact ⟨.calling, true, rfl, rfl⟩
    | deepseek => exact ⟨.calling, true, rfl, rfl⟩
    | openrouter => exact ⟨.calling, true, rfl, rfl⟩
    | offline => exact ⟨_, s.callRegistered, rfl, rfl⟩
  · exact ⟨_, s.callRegistered, rfl, rfl⟩

theorem statusError_isComplete (code : Nat) (errorBody : Text) :
    (statusError p code errorBody).isComplete = true := by
  unfold statusError
  cases p.provider <;> rfl

theorem Inv.throws (h : Inv s) (message : Option Text) (hcall : s.callCancelled = false) :
    Inv (s.throws message) :=
  ⟨h.called, fun _ => by simp [OnlineStream.throws, StreamPhase.silent, LLMResponse.failure, hcall]⟩

theorem Inv.doomed_throws (h : Inv s) (message : Option Text) (hcall : s.callCancelled ≠ false) :
    Doomed (s.throws message) := by
  have hcall : s.callCancelled = true := by simpa using hcall
  exact ⟨h.called hcall, by simp [OnlineStream.throws, StreamPhase.silent, hcall]⟩

theorem quiet_of_eq (hfull : t.fullResponse = s.fullResponse) (hemitted : t.emitted = s.emitted) :
    Quiet s t := fun _ => ⟨hfull, .inl hemitted⟩

/-- A step that leaves nothing to come keeps the silence; any other one breaks it or is bound to. -/
theorem step_spec (h : Inv s) (hstep : step parse p s e = some t) :
    (s.NothingToCome parse p e → Inv t ∧ Quiet s t) ∧
      (¬ s.NothingToCome parse p e → ¬ Quiet s t ∨ Doomed t) := by
  cases e with
  | prepare =>
    simp only [step] at hstep
    split at hstep
    · obtain ⟨phase, registered, hsilent, hprepared⟩ := @prepare_spec p s
      rw [hprepared] at hstep
      cases hstep
      exact ⟨fun _ => ⟨⟨h.called, fun _ => hsilent⟩, quiet_of_eq rfl rfl⟩, fun hnot => absurd trivial hnot⟩
    · cases hstep
  | execute result =>
    simp only [step] at hstep
    split at hstep
    · cases result with
      | threw message =>
        cases hstep
        exact ⟨fun hcall => ⟨h.throws message hcall, quiet_of_eq rfl rfl⟩,
          fun hcall => .inr (h.doomed_throws message hcall)⟩
      | failed code errorBody =>
        simp only [execute] at hstep
        split at hstep
        · cases hstep
        · cases hstep
          refine ⟨fun _ => ⟨⟨h.called, fun _ => ?_⟩, quiet_of_eq rfl rfl⟩, fun hnot => absurd trivial hnot⟩
          simp [StreamPhase.silent, statusError_isComplete]
      | ok =>
        simp only [execute] at hstep
        split at hstep
        · cases hstep
        · cases hstep
          exact ⟨fun _ => ⟨⟨h.called, fun _ => rfl⟩, quiet_of_eq rfl rfl⟩, fun hnot => absurd trivial hnot⟩
    · cases hstep
  | arrive lines =>
    have harrived : t = { s with buffered := s.buffered ++ lines } := by
      simp only [step] at hstep
      split at hstep
      · split at hstep
        · cases hstep
        · exact (Option.some.inj hstep).symm
      · split at hstep
        · cases hstep
        · exact (Option.some.inj hstep).symm
      · cases hstep
    subst harrived
    exact ⟨fun _ => ⟨⟨h.called, h.silent⟩, quiet_of_eq rfl rfl⟩, fun hnot => absurd trivial hnot⟩
  | readLine =>
    simp only [step] at hstep
    split at hstep
    · rename_i line rest hphase hbuffered
      cases hstep
      have hline : s.NothingToCome parse p .readLine ↔
          (s.cancelled = true → lineText parse p line = []) := by
        simp only [NothingToCome, hbuffered, List.head?_cons, Option.mem_def, Option.some.injEq,
          forall_eq']
      rw [hline]
      rcases @readLine_cases parse p { s with buffered := rest } line with
        ⟨htext, happend⟩ | ⟨htext, hquiet⟩
      · rw [happend]
        constructor
        · intro hnone
          have hnot : s.cancelled = false := Bool.not_eq_true _ ▸ fun hc => htext (hnone hc)
          exact ⟨⟨h.called, fun hc => Bool.noConfusion (hnot.symm.trans hc)⟩,
            fun hc => Bool.noConfusion (hnot.symm.trans hc)⟩
        · intro hnot
          refine .inl fun hquiet => hnot fun hc => ?_
          have hfull := (hquiet hc).1
          exact List.append_right_eq_self.mp hfull
      · refine ⟨fun _ => ?_, fun hnot => absurd (fun _ => htext) hnot⟩
        rcases hquiet with hsame | ⟨goesOn, hcompleted⟩
        · rw [hsame]
          exact ⟨⟨h.called, h.silent⟩, quiet_of_eq rfl rfl⟩
        · rw [hcompleted]
          exact ⟨⟨h.called, fun _ => rfl⟩, quiet_of_eq rfl rfl⟩
    · cases hstep
  | endOfBody =>
    simp only [step] at hstep
    split at hstep
    · cases hstep
      exact ⟨fun _ => ⟨⟨h.called, fun _ => rfl⟩, quiet_of_eq rfl rfl⟩, fun hnot => absurd trivial hnot⟩
    · cases hstep
  | readThrows message =>
    simp only [step] at hstep
    split at hstep
    · cases hstep
      exact ⟨fun hcall => ⟨h.throws message hcall, quiet_of_eq rfl rfl⟩,
        fun hcall => .inr (h.doomed_throws message hcall)⟩
    · cases hstep
  | emit =>
    simp only [step] at hstep
    split at hstep
    · rename_i response goesOn byCancel hphase
      cases hstep
      refine ⟨fun _ => ⟨⟨h.called, fun _ => ?_⟩, fun hc => ⟨rfl, .inr (h.silent hc)⟩⟩,
        fun hnot => absurd trivial hnot⟩
      cases goesOn <;> rfl
    · cases hstep
  | cancelGeneration =>
    cases hstep
    refine ⟨fun hsilent => ⟨⟨fun _ => rfl, fun _ => hsilent⟩, quiet_of_eq rfl rfl⟩, fun hnot => .inr ⟨rfl, ?_⟩⟩
    exact Bool.eq_false_iff.mpr hnot
  | otherRegisters =>
    cases hstep
    exact ⟨fun _ => ⟨⟨h.called, h.silent⟩, quiet_of_eq rfl rfl⟩, fun hnot => absurd trivial hnot⟩

theorem Doomed.emitting (h : Doomed s) :
    ∃ response goesOn byCancel, s.phase = .emitting response goesOn byCancel := by
  have hloud := h.2
  cases hphase : s.phase with
  | emitting response goesOn byCancel => exact ⟨response, goesOn, byCancel, rfl⟩
  | preparing => rw [hphase] at hloud; cases hloud
  | calling => rw [hphase] at hloud; cases hloud
  | reading => rw [hphase] at hloud; cases hloud
  | ended => rw [hphase] at hloud; cases hloud

/-- A doomed stream stays so until it emits. -/
theorem Doomed.step (h : Doomed s) (hstep : step parse p s e = some t) : Doomed t ∨ ¬ Quiet s t := by
  obtain ⟨response, goesOn, byCancel, hphase⟩ := h.emitting
  cases e with
  | emit =>
    simp only [OnlineStream.step, hphase] at hstep
    cases hstep
    refine .inr fun hquiet => ?_
    rcases (hquiet h.1).2 with hsame | hsilent
    · exact List.cons_ne_nil _ _ (List.append_right_eq_self.mp hsame)
    · exact Bool.noConfusion (h.2.symm.trans hsilent)
  | arrive lines =>
    have harrived : t = { s with buffered := s.buffered ++ lines } := by
      simp only [OnlineStream.step, hphase] at hstep
      cases goesOn with
      | true =>
        simp only at hstep
        split at hstep
        · cases hstep
        · cases hstep
          rw [hphase]
      | false => cases hstep
    exact .inl (harrived ▸ h)
  | cancelGeneration =>
    cases hstep
    exact .inl ⟨rfl, h.2⟩
  | otherRegisters =>
    cases hstep
    exact .inl h
  | prepare => simp [OnlineStream.step, hphase] at hstep
  | execute result => simp [OnlineStream.step, hphase] at hstep
  | readLine => simp [OnlineStream.step, hphase] at hstep
  | endOfBody => simp [OnlineStream.step, hphase] at hstep
  | readThrows message => simp [OnlineStream.step, hphase] at hstep

/-- A doomed stream that ends breaks the silence. -/
theorem Doomed.not_quiet (h : Doomed s) {es : List Event} {u : OnlineStream}
    (hrun : Machine.run (OnlineStream.step parse p) s es = some u) (hend : u.phase = .ended) :
    ¬ Machine.Meets (OnlineStream.step parse p)
      (fun s e => ∀ t, OnlineStream.step parse p s e = some t → Quiet s t) s es := by
  induction es generalizing s with
  | nil =>
    cases Option.some.inj hrun
    obtain ⟨response, goesOn, byCancel, hphase⟩ := h.emitting
    cases hphase.symm.trans hend
  | cons e es ih =>
    rintro ⟨hquiet, hmore⟩
    obtain ⟨t, ht, hrun⟩ := Machine.run_cons_iff.mp hrun
    rcases h.step ht with hdoomed | hloud
    · exact ih hdoomed hrun (hmore t ht)
    · exact hloud (hquiet t ht)

theorem start_inv : Inv start := ⟨fun h => h, fun _ => rfl⟩

theorem quiet_of_nothingToCome (h : Inv s) {es : List Event}
    (hmeets : Machine.Meets (step parse p) (NothingToCome parse p) s es) :
    Machine.Meets (step parse p) (fun s e => ∀ t, step parse p s e = some t → Quiet s t) s es := by
  induction es generalizing s with
  | nil => trivial
  | cons e es ih =>
    obtain ⟨hok, hmore⟩ := hmeets
    exact ⟨fun t ht => ((step_spec h ht).1 hok).2,
      fun t ht => ih ((step_spec h ht).1 hok).1 (hmore t ht)⟩

theorem nothingToCome_of_quiet (h : Inv s) {es : List Event} {u : OnlineStream}
    (hrun : Machine.run (step parse p) s es = some u) (hend : u.phase = .ended)
    (hmeets : Machine.Meets (step parse p) (fun s e => ∀ t, step parse p s e = some t → Quiet s t) s es) :
    Machine.Meets (step parse p) (NothingToCome parse p) s es := by
  induction es generalizing s with
  | nil => trivial
  | cons e es ih =>
    obtain ⟨t, ht, hrun⟩ := Machine.run_cons_iff.mp hrun
    obtain ⟨hkeeps, hbreaks⟩ := step_spec h ht
    obtain ⟨hquiet, hmore⟩ := hmeets
    have hok : s.NothingToCome parse p e := by
      by_contra hnot
      rcases hbreaks hnot with hloud | hdoomed
      · exact hloud (hquiet t ht)
      · exact hdoomed.not_quiet hrun hend (hmore t ht)
    refine ⟨hok, fun v hv => ?_⟩
    cases Option.some.inj (ht.symm.trans hv)
    exact ih (hkeeps hok).1 hrun (hmore t ht)

/-- A stream is silent after `cancelGeneration` if nothing is to come any more, and a finished stream
only then: the call aborts what it can abort with an error, and nothing else stops the stream. -/
theorem silent_iff (parse : Text → Option JSONObject) (p : OnlineLLMProvider) {es : List Event}
    (hrun : Machine.run (step parse p) start es = some s) :
    (Machine.Meets (step parse p) (NothingToCome parse p) start es →
      Machine.Meets (step parse p) (fun s e => ∀ t, step parse p s e = some t → Quiet s t) start es) ∧
    (s.phase = .ended →
      Machine.Meets (step parse p) (fun s e => ∀ t, step parse p s e = some t → Quiet s t) start es →
      Machine.Meets (step parse p) (NothingToCome parse p) start es) :=
  ⟨quiet_of_nothingToCome start_inv, nothingToCome_of_quiet start_inv hrun⟩

def keyed (provider : ApiProvider) : OnlineLLMProvider := ⟨provider, "key".toList, [], true⟩

instance decidableNothingToCome (s : OnlineStream) : ∀ e, Decidable (s.NothingToCome parse p e)
  | .cancelGeneration => inferInstanceAs (Decidable (_ = true))
  | .readLine => inferInstanceAs (Decidable (_ → _))
  | .execute (.threw _) | .readThrows _ => inferInstanceAs (Decidable (_ = false))
  | .prepare | .execute (.failed ..) | .execute .ok | .arrive _ | .endOfBody | .emit | .otherRegisters =>
    isTrue trivial

/-- The rest of the body is buffered, and carries no text. -/
theorem silent_at_end : Machine.Meets (step (fun _ => none) (keyed .openai))
    (fun s e => ∀ t, step (fun _ => none) (keyed .openai) s e = some t → Quiet s t) start
    [.prepare, .execute .ok, .arrive ["data: [DONE]".toList], .cancelGeneration, .readLine, .emit] := by
  have hrun : Machine.run (step (fun _ => none) (keyed .openai)) start
    [.prepare, .execute .ok, .arrive ["data: [DONE]".toList], .cancelGeneration, .readLine, .emit] =
      some _ := rfl
  exact (silent_iff _ _ hrun).1 (by decide +kernel)

/-- The aborted read throws, and the stream reports that as its error. -/
theorem aborted_read_reported : ¬ Machine.Meets (step (fun _ => none) (keyed .openai))
    (fun s e => ∀ t, step (fun _ => none) (keyed .openai) s e = some t → Quiet s t) start
    [.prepare, .execute .ok, .cancelGeneration, .readThrows (some "Socket closed".toList), .emit] := by
  intro hall
  have hquiet := ((((hall.2 _ rfl).2 _ rfl).2 _ rfl).2 _ rfl).1 _ rfl
  rcases (hquiet rfl).2 with hsame | hsilent
  · exact absurd hsame (by decide +kernel)
  · exact absurd hsilent (by decide +kernel)

end OnlineStream

end HeyNilo
