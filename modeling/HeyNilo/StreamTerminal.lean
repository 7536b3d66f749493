import HeyNilo.OnlineProvider

namespace HeyNilo

/-- Any number of streaming responses, and then one that is complete, which is the last. -/
def EndsOnce (responses : List LLMResponse) : Prop :=
  ∃ (partials : List LLMResponse) (last : LLMResponse), responses = partials ++ [last] ∧
    (∀ r ∈ partials, r.isStreaming = true ∧ r.isComplete = false) ∧ last.isComplete = true

theorem not_endsOnce_nil : ¬ EndsOnce [] := by
  rintro ⟨partials, last, heq, -⟩
  simp at heq

theorem endsOnce_cons_streaming {r : LLMResponse} {rs : List LLMResponse}
    (hstreaming : r.isStreaming = true) (hcomplete : r.isComplete = false) :
    EndsOnce (r :: rs) ↔ EndsOnce rs := by
  constructor
  · rintro ⟨partials, last, heq, hpartials, hlast⟩
    cases partials with
    | nil =>
      obtain ⟨rfl, rfl⟩ := List.cons.inj heq
      rw [hcomplete] at hlast
      cases hlast
    | cons first partials =>
      obtain ⟨rfl, rfl⟩ := List.cons.inj heq
      exact ⟨partials, last, rfl, (List.forall_mem_cons.mp hpartials).2, hlast⟩
  · rintro ⟨partials, last, rfl, hpartials, hlast⟩
    exact ⟨r :: partials, last, rfl, List.forall_mem_cons.mpr ⟨⟨hstreaming, hcomplete⟩, hpartials⟩,
      hlast⟩

theorem endsOnce_cons_complete {r : LLMResponse} {rs : List LLMResponse}
    (hcomplete : r.isComplete = true) : EndsOnce (r :: rs) ↔ rs = [] := by
  constructor
  · rintro ⟨partials, last, heq, hpartials, -⟩
    cases partials with
    | nil => exact (List.cons.inj heq).2
    | cons first partials =>
      obtain ⟨rfl, -⟩ := List.cons.inj heq
      have hpartial := ((List.forall_mem_cons.mp hpartials).1).2
      rw [hcomplete] at hpartial
      cases hpartial
  · rintro rfl
    exact ⟨[], r, rfl, nofun, hcomplete⟩

theorem endsOnce_failure (error : Text) : EndsOnce [.failure error] :=
  (endsOnce_cons_complete rfl).mpr rfl

namespace OnlineLLMProvider

/-- The event that a line carries for `emitClaudeStream`. -/
def lineEvent (parse : Text → Option JSONObject) (line : Text) : Option ClaudeEvent :=
  if dataField.isPrefixOf line then claudeEvent parse (line.drop 6) else none

def claudeEvents (parse : Text → Option JSONObject) (lines : List Text) : List ClaudeEvent :=
  lines.filterMap (lineEvent parse)

/-- One `message_stop` with nothing after it, or none and an exception. -/
def stopsOnce (broken : Bool) : List ClaudeEvent → Bool
  | [] => broken
  | .delta _ :: events => stopsOnce broken events
  | .stop :: events => events.isEmpty && !broken

/-- The body of an answer has one end that its reader sees. -/
def hasOneEnd (p : OnlineLLMProvider) (parse : Text → Option JSONObject) (body : ServerBody) : Bool :=
  match p.provider with
  | .openai | .deepseek | .openrouter =>
    body.lines.contains "data: [DONE]".toList || body.broken.isSome
  | .claude | .kimi => stopsOnce body.broken.isSome (claudeEvents parse body.lines)
  | .offline => true

variable {parse : Text → Option JSONObject} {broken : Option (Option Text)}

theorem catchStreaming_emit (r : LLMResponse) (e : Emissions) :
    catchStreaming (e.emit r) = r :: catchStreaming e := by
  obtain ⟨emitted, thrown⟩ := e
  cases thrown <;> rfl

theorem endsOnce_exhausted : EndsOnce (catchStreaming ⟨[], broken⟩) ↔ broken.isSome = true := by
  cases broken with
  | none => exact iff_of_false not_endsOnce_nil nofun
  | some message => exact iff_of_true (endsOnce_failure _) rfl

theorem dataField_done {line : Text} (h : dataField.isPrefixOf line = true) :
    line.drop 6 = "[DONE]".toList ↔ line = "data: [DONE]".toList := by
  obtain ⟨rest, rfl⟩ := List.isPrefixOf_iff_prefix.mp h
  have hdone : "data: [DONE]".toList = dataField ++ "[DONE]".toList := rfl
  rw [hdone, List.append_cancel_left_eq]
  exact Iff.rfl

theorem openAILoop_endsOnce (fullResponse : Text) (lines : List Text) :
    EndsOnce (catchStreaming (openAILoop parse broken fullResponse lines)) ↔
      lines.contains "data: [DONE]".toList || broken.isSome := by
  induction lines generalizing fullResponse with
  | nil => simpa [openAILoop] using endsOnce_exhausted
  | cons line lines ih =>
    rw [openAILoop, List.contains_cons]
    by_cases hdata : dataField.isPrefixOf line = true
    · rw [if_pos hdata]
      by_cases hdone : line.drop 6 = "[DONE]".toList
      · have hline := (dataField_done hdata).mp hdone
        simp only [hline, BEq.rfl, Bool.true_or, iff_true]
        exact (endsOnce_cons_complete rfl).mpr rfl
      · have hline : ("data: [DONE]".toList == line) = false :=
          beq_eq_false_iff_ne.mpr fun h => hdone ((dataField_done hdata).mpr h.symm)
        rw [hline, Bool.false_or]
        simp only [if_neg hdone]
        split
        next => exact ih fullResponse
        next =>
          rw [catchStreaming_emit, endsOnce_cons_streaming rfl rfl]
          exact ih _
    · have hline : ("data: [DONE]".toList == line) = false := by
        refine beq_eq_false_iff_ne.mpr fun h => hdata ?_
        rw [← h]
        rfl
      rw [if_neg hdata, hline, Bool.false_or]
      exact ih fullResponse

theorem claudeLoop_cons (fullResponse line : Text) (lines : List Text) :
    claudeLoop parse broken fullResponse (line :: lines) =
      match lineEvent parse line with
      | some (.delta text) =>
        .emit (.streaming (fullResponse ++ text))
          (claudeLoop parse broken (fullResponse ++ text) lines)
      | some .stop => .emit (.completed fullResponse) (claudeLoop parse broken fullResponse lines)
      | none => claudeLoop parse broken fullResponse lines := by
  rw [claudeLoop, lineEvent]
  split
  next => rfl
  next => rfl

theorem claudeEvents_cons (line : Text) (lines : List Text) :
    claudeEvents parse (line :: lines) =
      match lineEvent parse line with
      | some event => event :: claudeEvents parse lines
      | none => claudeEvents parse lines := by
  rw [claudeEvents, List.filterMap_cons]
  cases lineEvent parse line <;> rfl

theorem claudeLoop_eq_nil (fullResponse : Text) (lines : List Text) :
    catchStreaming (claudeLoop parse broken fullResponse lines) = [] ↔
      claudeEvents parse lines = [] ∧ broken = none := by
  induction lines generalizing fullResponse with
  | nil => cases broken <;> simp [claudeLoop, claudeEvents, catchStreaming]
  | cons line lines ih =>
    rw [claudeLoop_cons, claudeEvents_cons]
    cases lineEvent parse line with
    | none => exact ih fullResponse
    | some event => cases event <;> simp [catchStreaming_emit]

theorem claudeLoop_endsOnce (fullResponse : Text) (lines : List Text) :
    EndsOnce (catchStreaming (claudeLoop parse broken fullResponse lines)) ↔
      stopsOnce broken.isSome (claudeEvents parse lines) = true := by
  induction lines generalizing fullResponse with
  | nil => simpa [claudeLoop, claudeEvents, stopsOnce] using endsOnce_exhausted
  | cons line lines ih =>
    rw [claudeLoop_cons, claudeEvents_cons]
    cases lineEvent parse line with
    | none => exact ih fullResponse
    | some event =>
      cases event with
      | delta text =>
        dsimp only
        rw [catchStreaming_emit, endsOnce_cons_streaming rfl rfl]
        exact ih _
      | stop =>
        dsimp only
        rw [catchStreaming_emit, endsOnce_cons_complete rfl, claudeLoop_eq_nil]
        simp [stopsOnce]

/-- A stream ends with exactly one terminal response unless a body that it reads does not have exactly
one end: a [DONE] line or an exception for the OpenAI format, one `message_stop` as the last event or
an exception without any for the Anthropic one. -/
theorem stream_endsOnce_iff (parse : Text → Option JSONObject) (p : OnlineLLMProvider)
    (result : HttpResult) :
    EndsOnce (p.stream parse result) ↔
      ∀ body, p.isAvailable = true → result = .ok body → p.hasOneEnd parse body = true := by
  unfold stream
  split
  next havailable =>
    have hopenAI : EndsOnce (catchStreaming (p.emitOpenAICompatibleStream parse result)) ↔
        ∀ body, result = .ok body →
          (body.lines.contains "data: [DONE]".toList || body.broken.isSome) = true := by
      cases result with
      | threw message => exact iff_of_true (endsOnce_failure _) nofun
      | failed code errorBody => exact iff_of_true (endsOnce_failure _) nofun
      | ok body => simpa [emitOpenAICompatibleStream] using openAILoop_endsOnce [] body.lines
    have hclaude : EndsOnce (catchStreaming (emitClaudeStream parse result)) ↔
        ∀ body, result = .ok body →
          stopsOnce body.broken.isSome (claudeEvents parse body.lines) = true := by
      cases result with
      | threw message => exact iff_of_true (endsOnce_failure _) nofun
      | failed code errorBody => exact iff_of_true (endsOnce_failure _) nofun
      | ok body => simpa [emitClaudeStream] using claudeLoop_endsOnce [] body.lines
    simp only [havailable, forall_const]
    cases hprovider : p.provider with
    | openai => simpa [hasOneEnd, hprovider] using hopenAI
    | deepseek => simpa [hasOneEnd, hprovider] using hopenAI
    | openrouter => simpa [hasOneEnd, hprovider] using hopenAI
    | claude => simpa [hasOneEnd, hprovider] using hclaude
    | kimi => simpa [hasOneEnd, hprovider] using hclaude
    | offline =>
      refine iff_of_true (endsOnce_failure _) fun body _ => ?_
      simp [hasOneEnd, hprovider]
  next havailable => exact iff_of_true (endsOnce_failure _) fun body h => absurd h havailable

/-- The server closes the stream without its [DONE] line. -/
theorem cut_stream_has_no_end :
    ¬ ∀ (parse : Text → Option JSONObject) (p : OnlineLLMProvider) (result : HttpResult),
      EndsOnce (p.stream parse result) := by
  intro h
  exact not_endsOnce_nil
    (h (fun _ => none) ⟨.openai, "key".toList, [], true⟩ (.ok ⟨["data: [DON".toList], none⟩))

end OnlineLLMProvider

end HeyNilo
