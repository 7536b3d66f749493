import HeyNilo.OnlineStream
import HeyNilo.StreamTerminal

namespace HeyNilo

namespace OnlineStream

open OnlineLLMProvider

variable (parse : Text → Option JSONObject) (p : OnlineLLMProvider)

/-- The lines that arrive in a run, and the message of the exception that the body ends with. -/
def arrivals : List Event → List Text
  | [] => []
  | .arrive lines :: es => lines ++ arrivals es
  | _ :: es => arrivals es

def broken : List Event → Option (Option Text)
  | [] => none
  | .readThrows message :: _ => some message
  | _ :: es => broken es

def bodyOf (es : List Event) : ServerBody := ⟨arrivals es, broken es⟩

def httpResult : List Event → HttpResult
  | [] => .ok ⟨[], none⟩
  | .execute (.threw message) :: _ => .threw message
  | .execute (.failed code errorBody) :: _ => .failed code errorBody
  | .execute .ok :: es => .ok (bodyOf es)
  | _ :: es => httpResult es

def loop (broken : Option (Option Text)) (fullResponse : Text) (lines : List Text) : Emissions :=
  match p.provider with
  | .claude | .kimi => claudeLoop parse broken fullResponse lines
  | .openai | .deepseek | .openrouter | .offline => openAILoop parse broken fullResponse lines

/-- What a stream still emits, by the phase that it is in and the events to come. -/
def outcome (s : OnlineStream) (es : List Event) : List LLMResponse :=
  match s.phase with
  | .preparing => p.stream parse (httpResult es)
  | .calling =>
    catchStreaming <| match p.provider with
      | .claude | .kimi => emitClaudeStream parse (httpResult es)
      | .openai | .deepseek | .openrouter | .offline =>
        p.emitOpenAICompatibleStream parse (httpResult es)
  | .reading => catchStreaming (loop parse p (broken es) s.fullResponse (s.buffered ++ arrivals es))
  | .emitting response goesOn _ =>
    response :: if goesOn then
      catchStreaming (loop parse p (broken es) s.fullResponse (s.buffered ++ arrivals es)) else []
  | .ended => []

variable {parse p} {s t u : OnlineStream} {e : Event} {es : List Event}

theorem catchStreaming_openAILoop (broken : Option (Option Text)) (fullResponse line : Text)
    (lines : List Text) : catchStreaming (openAILoop parse broken fullResponse (line :: lines)) =
      if dataField.isPrefixOf line then
        if line.drop 6 = "[DONE]".toList then [.completed fullResponse]
        else if (chunkContent parse (line.drop 6)).isEmpty then
          catchStreaming (openAILoop parse broken fullResponse lines)
        else .streaming (fullResponse ++ chunkContent parse (line.drop 6)) ::
          catchStreaming (openAILoop parse broken
            (fullResponse ++ chunkContent parse (line.drop 6)) lines)
      else catchStreaming (openAILoop parse broken fullResponse lines) := by
  rw [openAILoop]
  split
  · dsimp only
    split
    · rfl
    · split
      · rfl
      · exact catchStreaming_emit _ _
  · rfl

theorem catchStreaming_claudeLoop (broken : Option (Option Text)) (fullResponse line : Text)
    (lines : List Text) : catchStreaming (claudeLoop parse broken fullResponse (line :: lines)) =
      if dataField.isPrefixOf line then
        match claudeEvent parse (line.drop 6) with
        | some (.delta text) => .streaming (fullResponse ++ text) ::
          catchStreaming (claudeLoop parse broken (fullResponse ++ text) lines)
        | some .stop =>
          .completed fullResponse :: catchStreaming (claudeLoop parse broken fullResponse lines)
        | none => catchStreaming (claudeLoop parse broken fullResponse lines)
      else catchStreaming (claudeLoop parse broken fullResponse lines) := by
  rw [claudeLoop]
  split
  · cases claudeEvent parse (line.drop 6) with
    | none => rfl
    | some event =>
      cases event with
      | delta text => exact catchStreaming_emit _ _
      | stop => exact catchStreaming_emit _ _
  · rfl

/-- What is left of an OpenAI stream when it has read a line. -/
theorem outcome_openAILine (line : Text) (hphase : s.phase = .reading)
    (hloop : loop parse p = openAILoop parse) :
    outcome parse p (s.openAILine parse line) es = catchStreaming
      (openAILoop parse (broken es) s.fullResponse (line :: (s.buffered ++ arrivals es))) := by
  rw [catchStreaming_openAILoop, openAILine]
  have hsame : outcome parse p s es = catchStreaming
      (openAILoop parse (broken es) s.fullResponse (s.buffered ++ arrivals es)) := by
    simp only [outcome, hphase, hloop]
  split
  · dsimp only
    split
    · rfl
    · split
      · exact hsame
      · rw [← hloop]
        rfl
  · exact hsame

theorem outcome_claudeLine (line : Text) (hphase : s.phase = .reading)
    (hloop : loop parse p = claudeLoop parse) :
    outcome parse p (s.claudeLine parse line) es = catchStreaming
      (claudeLoop parse (broken es) s.fullResponse (line :: (s.buffered ++ arrivals es))) := by
  rw [catchStreaming_claudeLoop, claudeLine]
  have hsame : outcome parse p s es = catchStreaming
      (claudeLoop parse (broken es) s.fullResponse (s.buffered ++ arrivals es)) := by
    simp only [outcome, hphase, hloop]
  split
  · cases claudeEvent parse (line.drop 6) with
    | none => exact hsame
    | some event =>
      rw [← hloop]
      cases event <;> rfl
  · exact hsame

theorem outcome_readLine (line : Text) (hphase : s.phase = .reading) :
    outcome parse p (s.readLine parse p line) es = catchStreaming
      (loop parse p (broken es) s.fullResponse (line :: (s.buffered ++ arrivals es))) := by
  have hopenAI : (loop parse p = openAILoop parse) →
      outcome parse p (s.openAILine parse line) es = catchStreaming
        (loop parse p (broken es) s.fullResponse (line :: (s.buffered ++ arrivals es))) := fun hloop => by
    rw [outcome_openAILine line hphase hloop, hloop]
  have hclaude : (loop parse p = claudeLoop parse) →
      outcome parse p (s.claudeLine parse line) es = catchStreaming
        (loop parse p (broken es) s.fullResponse (line :: (s.buffered ++ arrivals es))) := fun hloop => by
    rw [outcome_claudeLine line hphase hloop, hloop]
  unfold readLine
  cases hp : p.provider with
  | claude => exact hclaude (by funext b f l; rw [loop, hp])
  | kimi => exact hclaude (by funext b f l; rw [loop, hp])
  | openai => exact hopenAI (by funext b f l; rw [loop, hp])
  | deepseek => exact hopenAI (by funext b f l; rw [loop, hp])
  | openrouter => exact hopenAI (by funext b f l; rw [loop, hp])
  | offline => exact hopenAI (by funext b f l; rw [loop, hp])

/-- The stream reads no more. -/
def ReadsNoMore (s : OnlineStream) : Prop :=
  s.phase = .ended ∨ ∃ response byCancel, s.phase = .emitting response false byCancel

theorem ReadsNoMore.step (h : ReadsNoMore s) (hstep : step parse p s e = some t) :
    ReadsNoMore t ∧ arrivals [e] = [] ∧ broken [e] = none := by
  have hphase : s.phase ≠ .preparing ∧ s.phase ≠ .calling ∧ s.phase ≠ .reading := by
    rcases h with hended | ⟨response, byCancel, hemitting⟩
    · simp [hended]
    · simp [hemitting]
  cases e with
  | prepare => simp [OnlineStream.step, hphase.1] at hstep
  | execute result => simp [OnlineStream.step, hphase.2.1] at hstep
  | arrive lines =>
    rcases h with hended | ⟨response, byCancel, hemitting⟩
    · simp [OnlineStream.step, hended] at hstep
    · simp [OnlineStream.step, hemitting] at hstep
  | readLine =>
    rcases h with hended | ⟨response, byCancel, hemitting⟩
    · simp [OnlineStream.step, hended] at hstep
    · simp [OnlineStream.step, hemitting] at hstep
  | endOfBody =>
    rcases h with hended | ⟨response, byCancel, hemitting⟩
    · simp [OnlineStream.step, hended] at hstep
    · simp [OnlineStream.step, hemitting] at hstep
  | readThrows message =>
    rcases h with hended | ⟨response, byCancel, hemitting⟩
    · simp [OnlineStream.step, hended] at hstep
    · simp [OnlineStream.step, hemitting] at hstep
  | emit =>
    rcases h with hended | ⟨response, byCancel, hemitting⟩
    · simp [OnlineStream.step, hended] at hstep
    · simp only [OnlineStream.step, hemitting] at hstep
      cases hstep
      exact ⟨.inl rfl, rfl, rfl⟩
  | cancelGeneration =>
    cases hstep
    exact ⟨h, rfl, rfl⟩
  | otherRegisters =>
    cases hstep
    exact ⟨h, rfl, rfl⟩

theorem arrivals_cons (e : Event) (es : List Event) : arrivals (e :: es) = arrivals [e] ++ arrivals es := by
  cases e <;> simp [arrivals]

theorem broken_cons (h : broken [e] = none) (es : List Event) : broken (e :: es) = broken es := by
  cases e <;> first | rfl | cases h

theorem ReadsNoMore.run (h : ReadsNoMore s) (hrun : Machine.run (OnlineStream.step parse p) s es = some u) :
    arrivals es = [] ∧ broken es = none := by
  induction es generalizing s with
  | nil => exact ⟨rfl, rfl⟩
  | cons e es ih =>
    obtain ⟨t, ht, hrun⟩ := Machine.run_cons_iff.mp hrun
    obtain ⟨hnext, harrivals, hbroken⟩ := h.step ht
    obtain ⟨hrest, hquiet⟩ := ih hnext hrun
    exact ⟨by rw [arrivals_cons, harrivals, hrest]; rfl, by rw [broken_cons hbroken, hquiet]⟩

theorem outcome_ended (h : s.phase = .ended) (es : List Event) : outcome parse p s es = [] := by
  rw [outcome, h]

theorem outcome_prepare (hphase : s.phase = .preparing) (es : List Event) :
    outcome parse p s es = outcome parse p (s.prepare p) es := by
  have hleft : outcome parse p s es = p.stream parse (httpResult es) := by rw [outcome, hphase]
  rw [hleft, stream, prepare]
  split
  · cases hp : p.provider with
    | claude => simp only [outcome, hp]
    | kimi => simp only [outcome, hp]
    | openai => simp only [outcome, hp]
    | deepseek => simp only [outcome, hp]
    | openrouter => simp only [outcome, hp]
    | offline => rfl
  · rfl

theorem outcome_execute {result : ExecuteResult} (hphase : s.phase = .calling) (hbuffered : s.buffered = [])
    (hfull : s.fullResponse = []) (ht : s.execute p result = some t) (es : List Event) :
    outcome parse p s (.execute result :: es) = outcome parse p t es := by
  have hleft : outcome parse p s (.execute result :: es) = catchStreaming (match p.provider with
      | .claude | .kimi => emitClaudeStream parse (httpResult (.execute result :: es))
      | .openai | .deepseek | .openrouter | .offline =>
        p.emitOpenAICompatibleStream parse (httpResult (.execute result :: es))) := by
    rw [outcome, hphase]
  rw [hleft]
  cases result with
  | threw message =>
    cases ht
    cases p.provider <;> rfl
  | failed code errorBody =>
    simp only [execute] at ht
    split at ht
    · cases ht
    · cases ht
      simp only [outcome, statusError]
      cases p.provider <;> rfl
  | ok =>
    simp only [execute] at ht
    split at ht
    · cases ht
    · cases ht
      simp only [outcome, hbuffered, hfull, List.nil_append, loop]
      cases p.provider <;> rfl

/-- Before anything is read nothing has been buffered or collected. -/
def Fresh (s : OnlineStream) : Prop :=
  s.callCancelled = false ∧ (s.phase = .preparing ∨ s.phase = .calling →
    s.buffered = [] ∧ s.fullResponse = [])

theorem fresh_readLine (line : Text) (h : s.callCancelled = false) (hphase : s.phase = .reading) :
    Fresh (s.readLine parse p line) ∧ (s.readLine parse p line).emitted = s.emitted := by
  have hopenAI : Fresh (s.openAILine parse line) ∧ (s.openAILine parse line).emitted = s.emitted := by
    unfold openAILine
    split
    · dsimp only
      split
      · exact ⟨⟨h, fun heq => by simp at heq⟩, rfl⟩
      · split
        · exact ⟨⟨h, fun heq => by simp [hphase] at heq⟩, rfl⟩
        · exact ⟨⟨h, fun heq => by simp [append] at heq⟩, rfl⟩
    · exact ⟨⟨h, fun heq => by simp [hphase] at heq⟩, rfl⟩
  have hclaude : Fresh (s.claudeLine parse line) ∧ (s.claudeLine parse line).emitted = s.emitted := by
    unfold claudeLine
    split
    · cases claudeEvent parse (line.drop 6) with
      | none => exact ⟨⟨h, fun heq => by simp [hphase] at heq⟩, rfl⟩
      | some event =>
        cases event with
        | delta text => exact ⟨⟨h, fun heq => by simp [append] at heq⟩, rfl⟩
        | stop => exact ⟨⟨h, fun heq => by simp at heq⟩, rfl⟩
    · exact ⟨⟨h, fun heq => by simp [hphase] at heq⟩, rfl⟩
  unfold readLine
  cases p.provider with
  | claude => exact hclaude
  | kimi => exact hclaude
  | openai => exact hopenAI
  | deepseek => exact hopenAI
  | openrouter => exact hopenAI
  | offline => exact hopenAI

/-- One step emits the head of the outcome. -/
theorem outcome_step (h : Fresh s) (he : e ≠ .cancelGeneration) (hstep : step parse p s e = some t)
    (hrun : Machine.run (step parse p) t es = some u) :
    Fresh t ∧ t.emitted ++ outcome parse p t es = s.emitted ++ outcome parse p s (e :: es) := by
  cases e with
  | prepare =>
    simp only [step] at hstep
    split at hstep
    · rename_i hphase
      cases hstep
      obtain ⟨hbuffered, hfull⟩ := h.2 (.inl hphase)
      have hsame : (s.prepare p).callCancelled = s.callCancelled ∧ (s.prepare p).buffered = s.buffered ∧
          (s.prepare p).fullResponse = s.fullResponse ∧ (s.prepare p).emitted = s.emitted := by
        unfold prepare
        split
        · cases p.provider <;> exact ⟨rfl, rfl, rfl, rfl⟩
        · exact ⟨rfl, rfl, rfl, rfl⟩
      obtain ⟨hcall, hb, hf, hemitted⟩ := hsame
      refine ⟨⟨hcall.trans h.1, fun _ => ⟨hb.trans hbuffered, hf.trans hfull⟩⟩, ?_⟩
      have hleft : outcome parse p s (.prepare :: es) = outcome parse p s es := by
        simp only [outcome, hphase]
        rfl
      rw [hemitted, hleft, outcome_prepare hphase]
    · cases hstep
  | execute result =>
    simp only [step] at hstep
    split at hstep
    · rename_i hphase
      obtain ⟨hbuffered, hfull⟩ := h.2 (.inr hphase)
      rw [outcome_execute hphase hbuffered hfull hstep]
      cases result with
      | threw message =>
        cases hstep
        exact ⟨⟨h.1, fun heq => by simp [throws] at heq⟩, rfl⟩
      | failed code errorBody =>
        simp only [execute] at hstep
        split at hstep
        · cases hstep
        · cases hstep
          exact ⟨⟨h.1, fun heq => by simp at heq⟩, rfl⟩
      | ok =>
        simp only [execute] at hstep
        split at hstep
        · cases hstep
        · cases hstep
          exact ⟨⟨h.1, fun heq => by simp at heq⟩, rfl⟩
    · cases hstep
  | arrive lines =>
    have hbroken : broken (.arrive lines :: es) = broken es := rfl
    have harrivals : arrivals (.arrive lines :: es) = lines ++ arrivals es := rfl
    simp only [step] at hstep
    split at hstep
    · rename_i hphase
      split at hstep
      · cases hstep
      · cases hstep
        refine ⟨⟨h.1, fun heq => by simp [hphase] at heq⟩, ?_⟩
        simp only [outcome, hphase, hbroken, harrivals, List.append_assoc]
    · rename_i response byCancel hphase
      split at hstep
      · cases hstep
      · cases hstep
        refine ⟨⟨h.1, fun heq => by simp [hphase] at heq⟩, ?_⟩
        simp only [outcome, hphase, hbroken, harrivals, List.append_assoc]
    · cases hstep
  | readLine =>
    simp only [step] at hstep
    split at hstep
    · rename_i line rest hphase hbuffered
      cases hstep
      have hread : outcome parse p ({ s with buffered := rest }.readLine parse p line) es =
          catchStreaming (loop parse p (broken es) s.fullResponse (line :: (rest ++ arrivals es))) :=
        @outcome_readLine parse p { s with buffered := rest } es line hphase
      have hleft : outcome parse p s (.readLine :: es) =
          catchStreaming (loop parse p (broken es) s.fullResponse (s.buffered ++ arrivals es)) := by
        simp only [outcome, hphase]
        rfl
      obtain ⟨hfresh, hemitted⟩ : Fresh ({ s with buffered := rest }.readLine parse p line) ∧
          ({ s with buffered := rest }.readLine parse p line).emitted = s.emitted :=
        @fresh_readLine parse p { s with buffered := rest } line h.1 hphase
      refine ⟨hfresh, ?_⟩
      rw [hemitted, hread, hleft, hbuffered, List.cons_append]
    · cases hstep
  | endOfBody =>
    simp only [step] at hstep
    split at hstep
    · rename_i hphase hbuffered
      cases hstep
      obtain ⟨harrivals, hbroken⟩ := ReadsNoMore.run (.inl rfl) hrun
      have hnone : catchStreaming (loop parse p none s.fullResponse []) = [] := by
        unfold loop
        cases p.provider <;> rfl
      have hleft : outcome parse p s (.endOfBody :: es) =
          catchStreaming (loop parse p (broken es) s.fullResponse (s.buffered ++ arrivals es)) := by
        simp only [outcome, hphase]
        rfl
      refine ⟨⟨h.1, fun heq => by simp at heq⟩, ?_⟩
      rw [hleft, hbuffered, harrivals, hbroken, List.append_nil, hnone, outcome_ended rfl]
    · cases hstep
  | readThrows message =>
    simp only [step] at hstep
    split at hstep
    · rename_i hphase hbuffered
      cases hstep
      obtain ⟨harrivals, -⟩ := ReadsNoMore.run (.inr ⟨_, _, rfl⟩) hrun
      have hleft : outcome parse p s (.readThrows message :: es) =
          catchStreaming (loop parse p (some message) s.fullResponse (s.buffered ++ arrivals es)) := by
        simp only [outcome, hphase]
        rfl
      refine ⟨⟨h.1, fun heq => by simp [throws] at heq⟩, ?_⟩
      rw [hleft, hbuffered, harrivals, List.append_nil]
      unfold loop
      cases p.provider <;> rfl
    · cases hstep
  | emit =>
    simp only [step] at hstep
    split at hstep
    · rename_i response goesOn byCancel hphase
      cases hstep
      refine ⟨⟨h.1, fun heq => by cases goesOn <;> simp at heq⟩, ?_⟩
      have hleft : outcome parse p s (.emit :: es) = response :: if goesOn then
          catchStreaming (loop parse p (broken es) s.fullResponse (s.buffered ++ arrivals es)) else [] := by
        simp only [outcome, hphase]
        rfl
      rw [hleft, List.append_assoc]
      cases goesOn <;> rfl
    · cases hstep
  | cancelGeneration => exact absurd rfl he
  | otherRegisters =>
    cases hstep
    refine ⟨h, ?_⟩
    have hsame : outcome parse p s (.otherRegisters :: es) = outcome parse p s es := by
      unfold outcome
      cases s.phase <;> rfl
    rw [hsame]
    rfl

theorem emitted_run (h : Fresh s) (hcancel : .cancelGeneration ∉ es)
    (hrun : Machine.run (step parse p) s es = some u) (hend : u.phase = .ended) :
    u.emitted = s.emitted ++ outcome parse p s es := by
  induction es generalizing s with
  | nil =>
    cases Option.some.inj hrun
    rw [outcome_ended hend, List.append_nil]
  | cons e es ih =>
    obtain ⟨t, ht, hrun⟩ := Machine.run_cons_iff.mp hrun
    rw [List.mem_cons, not_or] at hcancel
    obtain ⟨hfirst, hcancel⟩ := hcancel
    obtain ⟨hfresh, hsame⟩ := outcome_step h (Ne.symm hfirst) ht hrun
    rw [ih hfresh hcancel hrun, hsame]

/-- Without a cancellation a stream emits what `OnlineLLMProvider.stream` does for the same answer of
the server. -/
theorem emitted_eq_stream (hcancel : .cancelGeneration ∉ es)
    (hrun : Machine.run (step parse p) start es = some u) (hend : u.phase = .ended) :
    u.emitted = p.stream parse (httpResult es) :=
  emitted_run ⟨rfl, fun _ => ⟨rfl, rfl⟩⟩ hcancel hrun hend

end OnlineStream

end HeyNilo
