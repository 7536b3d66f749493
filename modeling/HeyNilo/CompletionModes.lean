import HeyNilo.OfflineProvider
import HeyNilo.SseDecoding
import HeyNilo.StreamTerminal

namespace HeyNilo

open OnlineLLMProvider

/-- What a server says in a line of an Anthropic stream. -/
inductive ServerEvent where
  | textDelta (text : Text)
  | messageStop
  | other
deriving DecidableEq, Repr

/-- The line carries the event. Other lines are no data, or data of another type. -/
def Carries (parse : Text → Option JSONObject) (line : Text) : ServerEvent → Prop
  | .textDelta text => ∃ data json delta, line = dataField ++ data ∧ parse data = some json ∧
      json.opt "type".toList = some (.str "content_block_delta".toList) ∧
      json.opt "delta".toList = some (.obj delta) ∧
      JSONObject.opt delta "text".toList = some (.str text)
  | .messageStop => ∃ data json, line = dataField ++ data ∧ parse data = some json ∧
      json.opt "type".toList = some (.str "message_stop".toList)
  | .other => dataField.isPrefixOf line = false ∨
      ∃ data json type, line = dataField ++ data ∧ parse data = some json ∧
        json.opt "type".toList = some (.str type) ∧
        type ∉ ["content_block_delta".toList, "message_stop".toList]

/-- A content block with its text. -/
def IsTextBlock (block : OrgJson) (text : Text) : Prop :=
  ∃ fields, block = .obj fields ∧ JSONObject.opt fields "text".toList = some (.str text)

/-- One reply in both modes of the Anthropic format: the blocks of the blocking answer, and a stream
that splits each of them into deltas. -/
structure AnthropicReply (parse : Text → Option JSONObject) (body : Text) (lines : List Text)
    (blocks : List Text) : Prop where
  blocking : ∃ json content, parse body = some json ∧
    json.opt "content".toList = some (.arr content) ∧ List.Forall₂ IsTextBlock content blocks
  streamed : ∃ events, List.Forall₂ (Carries parse) lines events ∧ ∃ splits : List (List Text),
    splits.map List.flatten = blocks ∧
      events.filter (· ≠ .other) = splits.flatten.map .textDelta ++ [.messageStop]

/-- One reply in both modes of the OpenAI format. -/
structure OpenAIReply (parse : Text → Option JSONObject) (body : Text) (items : List BodyItem)
    (done text : Text) : Prop where
  blocking : ∃ json choice choices message, parse body = some json ∧
    json.opt "choices".toList = some (.arr (.obj choice :: choices)) ∧
    JSONObject.opt choice "message".toList = some (.obj message) ∧
    JSONObject.opt message "content".toList = some (.str text)
  valid : ∀ item ∈ items, item.Valid parse
  done : sseData done = "[DONE]".toList
  streamed : items.flatMap (·.text) = text

/-- How many of the tokens of a reply are there when `complete` and `stream` stop waiting, and how
`stream` does. -/
structure OfflineWaits where
  complete : Nat
  stream : Nat
  timedOut : Bool
deriving DecidableEq, Repr

/-- A request made in both modes, with the reply to it. -/
inductive ModeRun where
  | anthropic (p : OnlineLLMProvider) (body : Text) (lines blocks : List Text)
  | openAI (p : OnlineLLMProvider) (body : Text) (items : List BodyItem) (done text : Text)
  | offline (bridge : LlamaBridge) (tokens : List Text) (waits : OfflineWaits)

/-- The limit of the job that was launched last. -/
def launchedLimit (bridge : LlamaBridge) : Option Nat := bridge.jobs.getLast?.map (·.maxTokens)

def jsonLimit (body : JSONObject) : Option OrgJson := body.opt "max_tokens".toList

namespace ModeRun

variable (parse : Text → Option JSONObject) (utfChars : Text → Bytes) (request : CompletionRequest)

/-- The provider is available, and the reply is the same in both modes. -/
def SameReply : ModeRun → Prop
  | .anthropic p body lines blocks =>
    p.isAvailable = true ∧ p.provider ∈ [ApiProvider.claude, .kimi] ∧
      AnthropicReply parse body lines blocks
  | .openAI p body items done text =>
    p.isAvailable = true ∧ p.provider ∈ [ApiProvider.openai, .deepseek, .openrouter] ∧
      OpenAIReply parse body items done text
  | .offline bridge _ _ => bridge.notReady = none

/-- The response of `complete`; the text of an exception plays no part. -/
def complete : ModeRun → LLMResponse
  | .anthropic p body _ _ => p.complete parse none (.ok body)
  | .openAI p body _ _ _ => p.complete parse none (.ok body)
  | .offline bridge tokens waits =>
    let limit := (launchedLimit (OfflineLLMProvider.completeCall utfChars bridge request)).getD 0
    OfflineLLMProvider.complete bridge ((tokens.take limit).take waits.complete) none

def stream : ModeRun → List LLMResponse
  | .anthropic p _ lines _ => p.stream parse (.ok ⟨lines, none⟩)
  | .openAI p _ items done _ => p.stream parse (.ok (sseBody items done none))
  | .offline bridge tokens waits =>
    let limit := (launchedLimit (OfflineLLMProvider.streamCall utfChars bridge request)).getD 0
    OfflineLLMProvider.stream bridge ((tokens.take limit).take waits.stream)
      (if waits.timedOut then .timedOut else .completed)

/-- Both modes use the limit of the request. -/
def KeepsLimit : ModeRun → Prop
  | .anthropic p _ _ _ =>
    ∀ streamed, jsonLimit (p.buildClaudeBody request streamed) =
      some (.num (toString request.maxTokens).toList)
  | .openAI p _ _ _ _ =>
    ∀ streamed, jsonLimit (p.buildOpenAIBody request streamed) =
      some (.num (toString request.maxTokens).toList)
  | .offline bridge _ _ =>
    launchedLimit (OfflineLLMProvider.completeCall utfChars bridge request) =
        some request.maxTokens.toNat ∧
      launchedLimit (OfflineLLMProvider.streamCall utfChars bridge request) =
        some request.maxTokens.toNat

def Agrees (r : ModeRun) : Prop :=
  terminalText (r.stream parse utfChars request) = some (r.complete parse utfChars request).text ∧
    r.KeepsLimit utfChars request

/-- The tokens that are there at the end of one wait and not of the other. -/
def betweenWaits (tokens : List Text) (waits : OfflineWaits) : List Text :=
  ((tokens.take 256).take (max waits.complete waits.stream)).drop (min waits.complete waits.stream)

/-- No text after the first block; a clean body; the limit of `generate` and no text between the
waits. -/
def Agreeable : ModeRun → Prop
  | .anthropic _ _ _ blocks => ∀ text ∈ blocks.tail, text = []
  | .openAI _ _ items done _ => OnlineLLMProvider.Clean items done
  | .offline _ tokens waits =>
    request.maxTokens = 256 ∧ ∀ token ∈ betweenWaits tokens waits, token = []

/-- The stream both loses text and makes some up. -/
def LosesAndMakesUp : ModeRun → Prop
  | .openAI _ _ items _ _ => (∃ item ∈ items, item.lost = true) ∧ ∃ item ∈ items, item.madeUp = true
  | _ => False

end ModeRun

variable {parse : Text → Option JSONObject} {broken : Option (Option Text)}

theorem drop_dataField (data : Text) : (dataField ++ data).drop 6 = data := rfl

theorem dataField_append (data : Text) : dataField.isPrefixOf (dataField ++ data) = true :=
  List.isPrefixOf_iff_prefix.mpr (List.prefix_append _ _)

/-- What the loop of `emitClaudeStream` sees of an event. -/
def ServerEvent.seen : ServerEvent → Option ClaudeEvent
  | .textDelta text => if text.isEmpty then none else some (.delta text)
  | .messageStop => some .stop
  | .other => none

theorem lineEvent_carries {line : Text} {event : ServerEvent} (h : Carries parse line event) :
    lineEvent parse line = event.seen := by
  unfold lineEvent
  cases event with
  | textDelta text =>
    obtain ⟨data, json, delta, rfl, hparse, htype, hdelta, htext⟩ := h
    rw [if_pos (dataField_append data), drop_dataField, claudeEvent, hparse, Option.bind_some,
      JSONObject.optString_str htype, JSONObject.getJSONObject_obj hdelta]
    simp only [Option.getD_some, if_true, Option.bind_some, JSONObject.optString_str htext]
    rfl
  | messageStop =>
    obtain ⟨data, json, rfl, hparse, htype⟩ := h
    rw [if_pos (dataField_append data), drop_dataField, claudeEvent, hparse, Option.bind_some,
      JSONObject.optString_str htype]
    rfl
  | other =>
    rcases h with hline | ⟨data, json, type, rfl, hparse, htype, hother⟩
    · rw [hline]
      rfl
    · simp only [List.mem_cons, List.not_mem_nil, or_false, not_or] at hother
      rw [if_pos (dataField_append data), drop_dataField, claudeEvent, hparse, Option.bind_some,
        JSONObject.optString_str htype]
      simp only [Option.getD_some, if_neg hother.1, if_neg hother.2]
      rfl

theorem terminalText_claude {lines : List Text} {events : List ServerEvent}
    (h : List.Forall₂ (Carries parse) lines events) {deltas : List Text}
    (hevents : events.filter (· ≠ .other) = deltas.map .textDelta ++ [.messageStop])
    (fullResponse : Text) :
    terminalText (claudeLoop parse broken fullResponse lines).emitted =
      some (fullResponse ++ deltas.flatten) := by
  induction h generalizing deltas fullResponse with
  | nil => simp at hevents
  | @cons line event lines events hline hrest ih =>
    rw [claudeLoop_cons, lineEvent_carries hline]
    cases event with
    | other => exact ih (by simpa using hevents) fullResponse
    | messageStop =>
      cases deltas with
      | nil =>
        rw [List.flatten_nil, List.append_nil]
        rfl
      | cons text deltas => simp at hevents
    | textDelta text =>
      cases deltas with
      | nil => simp at hevents
      | cons first deltas =>
        obtain ⟨rfl, hnext⟩ : text = first ∧
            events.filter (· ≠ .other) = deltas.map .textDelta ++ [.messageStop] := by
          simpa using hevents
        rw [List.flatten_cons, ← List.append_assoc]
        cases hempty : text.isEmpty with
        | true =>
          rw [List.isEmpty_iff.mp hempty, List.append_nil]
          exact ih hnext fullResponse
        | false =>
          simp only [ServerEvent.seen, hempty, Bool.false_eq_true, if_false]
          rw [terminalText_emit_streaming]
          exact ih hnext _

theorem claudeLoop_thrown (fullResponse : Text) (lines : List Text) :
    (claudeLoop parse broken fullResponse lines).thrown = broken := by
  induction lines generalizing fullResponse with
  | nil => rfl
  | cons line lines ih =>
    rw [claudeLoop_cons]
    split
    next => exact ih _
    next => exact ih _
    next => exact ih _

theorem openAILoop_thrown (fullResponse : Text) (lines : List Text) :
    (openAILoop parse none fullResponse lines).thrown = none := by
  induction lines generalizing fullResponse with
  | nil => rfl
  | cons line lines ih =>
    rw [openAILoop]
    split
    next =>
      dsimp only
      split
      next => rfl
      next =>
        split
        next => exact ih _
        next => exact ih _
    next => exact ih _

theorem catchStreaming_of_none {e : Emissions} (h : e.thrown = none) :
    catchStreaming e = e.emitted := by
  rw [catchStreaming, h]

/-- Two beginnings of a list of texts are the same text exactly when nothing stands between them. -/
theorem flatten_take_eq_iff {α : Type*} (xs : List (List α)) (a b : Nat) :
    (xs.take a).flatten = (xs.take b).flatten ↔
      ∀ x ∈ (xs.take (max a b)).drop (min a b), x = [] := by
  have hle (a b : Nat) (h : a ≤ b) :
      (xs.take a).flatten = (xs.take b).flatten ↔ ∀ x ∈ (xs.take b).drop a, x = [] := by
    have hsplit : xs.take b = xs.take a ++ (xs.take b).drop a := by
      conv_lhs => rw [← List.take_append_drop a (xs.take b)]
      rw [List.take_take, Nat.min_eq_left h]
    rw [← List.flatten_eq_nil_iff]
    conv_lhs => rw [hsplit, List.flatten_append]
    exact List.self_eq_append_right
  rcases Nat.le_total a b with h | h
  · rw [max_eq_right h, min_eq_left h]
    exact hle a b h
  · rw [max_eq_left h, min_eq_right h, eq_comm]
    exact hle b a h

theorem claudeMessageText_reply {body : Text} {blocks : List Text}
    (h : ∃ json content, parse body = some json ∧
      json.opt "content".toList = some (.arr content) ∧ List.Forall₂ IsTextBlock content blocks) :
    claudeMessageText parse body = blocks.head? := by
  obtain ⟨json, content, hparse, hcontent, hblocks⟩ := h
  rw [claudeMessageText, hparse, Option.bind_some, JSONObject.getJSONArray_arr hcontent,
    Option.bind_some]
  cases hblocks with
  | nil => rfl
  | cons hblock _ =>
    obtain ⟨fields, rfl, htext⟩ := hblock
    show JSONObject.getString fields "text".toList = _
    rw [JSONObject.getString_str htext]
    rfl

theorem openAIMessageText_reply {body text : Text}
    (h : ∃ json choice choices message, parse body = some json ∧
      json.opt "choices".toList = some (.arr (.obj choice :: choices)) ∧
      JSONObject.opt choice "message".toList = some (.obj message) ∧
      JSONObject.opt message "content".toList = some (.str text)) :
    openAIMessageText parse body = some text := by
  obtain ⟨json, choice, choices, message, hparse, hchoices, hmessage, hcontent⟩ := h
  rw [openAIMessageText, hparse, Option.bind_some, JSONObject.getJSONArray_arr hchoices,
    Option.bind_some]
  show (JSONObject.getJSONObject choice "message".toList).bind _ = _
  rw [JSONObject.getJSONObject_obj hmessage, Option.bind_some, JSONObject.getString_str hcontent]

namespace ModeRun

variable {utfChars : Text → Bytes} {request : CompletionRequest} {p : OnlineLLMProvider}

theorem openAI_keepsLimit (streamed : Bool) :
    jsonLimit (p.buildOpenAIBody request streamed) =
      some (.num (toString request.maxTokens).toList) := rfl

theorem claude_keepsLimit (streamed : Bool) :
    jsonLimit (p.buildClaudeBody request streamed) =
      some (.num (toString request.maxTokens).toList) := by
  unfold buildClaudeBody
  dsimp only
  split <;> rfl

/-- The texts of the two modes agree exactly when the blocks after the first have none. -/
theorem anthropic_agrees {body : Text} {lines blocks : List Text}
    (h : SameReply parse (.anthropic p body lines blocks)) :
    Agrees parse utfChars request (.anthropic p body lines blocks) ↔
      ∀ text ∈ blocks.tail, text = [] := by
  obtain ⟨havailable, hprovider, hreply⟩ := h
  have hstream : p.stream parse (.ok ⟨lines, none⟩) =
      (claudeLoop parse none [] lines).emitted := by
    rw [← catchStreaming_of_none (claudeLoop_thrown [] lines), OnlineLLMProvider.stream,
      if_pos havailable]
    simp only [List.mem_cons, List.not_mem_nil, or_false] at hprovider
    rcases hprovider with hprovider | hprovider <;> rw [hprovider] <;> rfl
  have hcomplete : (p.complete parse none (.ok body)).text = blocks.head?.getD [] := by
    rw [← claudeMessageText_reply hreply.blocking, OnlineLLMProvider.complete, if_pos havailable]
    simp only [List.mem_cons, List.not_mem_nil, or_false] at hprovider
    rcases hprovider with hprovider | hprovider <;> rw [hprovider] <;>
      cases htext : claudeMessageText parse body <;> simp [blockingResponse, htext,
        LLMResponse.failure, LLMResponse.completed]
  obtain ⟨events, hlines, splits, hsplits, hevents⟩ := hreply.streamed
  have hterminal : terminalText (claudeLoop parse none [] lines).emitted = _ :=
    terminalText_claude hlines hevents []
  have htexts : splits.flatten.flatten = blocks.flatten := by
    rw [← hsplits, List.flatten_flatten]
  unfold Agrees
  rw [ModeRun.stream, ModeRun.complete, hstream, hterminal, hcomplete, htexts, List.nil_append]
  have hlimit : KeepsLimit utfChars request (.anthropic p body lines blocks) :=
    fun streamed => claude_keepsLimit streamed
  rw [and_iff_left hlimit]
  cases blocks with
  | nil => simp
  | cons first blocks => simp [List.flatten_eq_nil_iff]

theorem openAI_agrees {body : Text} {items : List BodyItem} {done text : Text}
    (h : SameReply parse (.openAI p body items done text)) :
    Agrees parse utfChars request (.openAI p body items done text) ↔
      p.Decoded parse items done none := by
  obtain ⟨havailable, hprovider, hreply⟩ := h
  have hstream : p.stream parse (.ok (sseBody items done none)) =
      (p.emitOpenAICompatibleStream parse (.ok (sseBody items done none))).emitted := by
    have hthrown : (p.emitOpenAICompatibleStream parse (.ok (sseBody items done none))).thrown =
        none := openAILoop_thrown [] _
    rw [← catchStreaming_of_none hthrown, OnlineLLMProvider.stream, if_pos havailable]
    simp only [List.mem_cons, List.not_mem_nil, or_false] at hprovider
    rcases hprovider with hprovider | hprovider | hprovider <;> rw [hprovider]
  have hcomplete : (p.complete parse none (.ok body)).text = text := by
    have htext := openAIMessageText_reply hreply.blocking
    rw [OnlineLLMProvider.complete, if_pos havailable]
    simp only [List.mem_cons, List.not_mem_nil, or_false] at hprovider
    rcases hprovider with hprovider | hprovider | hprovider <;> rw [hprovider] <;>
      simp [blockingResponse, htext, LLMResponse.completed]
  have hlimit : KeepsLimit utfChars request (.openAI p body items done text) :=
    fun streamed => openAI_keepsLimit streamed
  unfold Agrees Decoded
  rw [and_iff_left hlimit, ModeRun.stream, ModeRun.complete, hstream, hcomplete, hreply.streamed]

theorem isLoaded_of_ready {bridge : LlamaBridge} (h : bridge.notReady = none) :
    bridge.currentState = .ready ∧ bridge.isLoaded = true := by
  unfold LlamaBridge.notReady at h
  split at h
  next => cases h
  next hready =>
    split at h
    next => cases h
    next hloaded => exact ⟨Classical.not_not.mp hready, by simpa using hloaded⟩

theorem launchedLimit_launch {bridge : LlamaBridge} (h : bridge.notReady = none) (prompt : Bytes)
    (maxTokens : Nat) : launchedLimit (bridge.launchGeneration prompt maxTokens) = some maxTokens := by
  simp [launchedLimit, LlamaBridge.launchGeneration, h]

theorem completeCall_limit {bridge : LlamaBridge} (h : bridge.notReady = none) :
    launchedLimit (OfflineLLMProvider.completeCall utfChars bridge request) = some 256 := by
  have hready : (bridge.setSystemPrompt
      (utfChars (OfflineLLMProvider.buildSystemPromptString request))).notReady = none := h
  exact launchedLimit_launch hready _ 256

theorem streamCall_limit {bridge : LlamaBridge} (h : bridge.notReady = none) :
    launchedLimit (OfflineLLMProvider.streamCall utfChars bridge request) =
      some request.maxTokens.toNat := by
  obtain ⟨-, hloaded⟩ := isLoaded_of_ready h
  refine launchedLimit_launch ?_ _ _
  have hpath : bridge.modelPath.isSome = true := by
    simpa [LlamaBridge.isLoaded, NativeLlama.isModelLoaded] using hloaded
  simp [LlamaBridge.notReady, LlamaBridge.stopGeneration, LlamaBridge.cancelGenerationJob,
    LlamaBridge.isLoaded, LlamaBridge.setSystemPrompt, NativeLlama.isModelLoaded,
    Option.isSome_iff_ne_none.mp hpath]

theorem terminalText_streamLoop (timedOut : Bool) (fullResponse : Text) (tokens : List Text) :
    terminalText (OfflineLLMProvider.streamLoop (if timedOut then .timedOut else .completed)
      fullResponse tokens) = some (fullResponse ++ tokens.flatten) := by
  induction tokens generalizing fullResponse with
  | nil => cases timedOut <;> simp [OfflineLLMProvider.streamLoop, terminalText, LLMResponse.completed]
  | cons token tokens ih =>
    rw [List.flatten_cons, ← List.append_assoc]
    exact ih _

/-- The offline modes agree exactly when the request has the limit of `generate` and no text comes
between the two waits. -/
theorem offline_agrees {bridge : LlamaBridge} {tokens : List Text} {waits : OfflineWaits}
    (h : bridge.notReady = none) :
    Agrees parse utfChars request (.offline bridge tokens waits) ↔
      request.maxTokens = 256 ∧ ∀ token ∈ betweenWaits tokens waits, token = [] := by
  obtain ⟨-, hloaded⟩ := isLoaded_of_ready h
  unfold Agrees KeepsLimit
  rw [ModeRun.stream, ModeRun.complete]
  simp only [completeCall_limit h, streamCall_limit h, Option.getD_some, Option.some.injEq, and_true,
    OfflineLLMProvider.stream, OfflineLLMProvider.complete, hloaded, if_true,
    terminalText_streamLoop, List.nil_append, LLMResponse.completed]
  constructor
  · rintro ⟨htexts, hlimit⟩
    have hmax : request.maxTokens = 256 := by omega
    rw [← hlimit] at htexts
    exact ⟨hmax, (flatten_take_eq_iff (tokens.take 256) _ _).mp htexts.symm⟩
  · rintro ⟨hmax, hbetween⟩
    have hlimit : 256 = request.maxTokens.toNat := by omega
    refine ⟨?_, hlimit⟩
    rw [← hlimit]
    exact ((flatten_take_eq_iff (tokens.take 256) _ _).mpr hbetween).symm

/-- For one reply in both modes `complete` and the terminal response of `stream` have one text and both
keep the limit of the request exactly when there is no text after the first block, the body is clean,
or the limit is that of `generate` and no text comes between the two waits; of an OpenAI body that
both loses text and makes some up only the one direction is said. -/
theorem agrees_iff (parse : Text → Option JSONObject) (hdone : parse "[DONE]".toList = none)
    (utfChars : Text → Bytes) (request : CompletionRequest) (r : ModeRun)
    (h : r.SameReply parse) :
    (r.Agreeable request → r.Agrees parse utfChars request) ∧
      (¬ r.LosesAndMakesUp → (r.Agrees parse utfChars request ↔ r.Agreeable request)) := by
  cases r with
  | anthropic p body lines blocks =>
    have hiff : Agrees parse utfChars request _ ↔ _ := anthropic_agrees h
    exact ⟨hiff.mpr, fun _ => hiff⟩
  | offline bridge tokens waits =>
    have hiff : Agrees parse utfChars request (.offline bridge tokens waits) ↔ _ := offline_agrees h
    exact ⟨hiff.mpr, fun _ => hiff⟩
  | openAI p body items done text =>
    have hiff : Agrees parse utfChars request _ ↔ _ := openAI_agrees h
    have hreply := h.2.2
    constructor
    · intro hclean
      rw [hiff, decoded_iff hdone p hreply.valid hreply.done]
      obtain ⟨hspaced, hitems⟩ := clean_iff.mp hclean
      exact ⟨hspaced, List.flatMap_congr hitems⟩
    · intro hboth
      rw [hiff]
      refine decoded_iff_clean hdone p hreply.valid hreply.done ?_
      by_contra hneither
      refine hboth ?_
      simpa [LosesAndMakesUp, not_or] using hneither

def sampleRequest (maxTokens : Int) : CompletionRequest :=
  ⟨[⟨.user, "Hi".toList⟩], maxTokens, ⟨"0.7".toList, "0.7".toList⟩, ⟨"0.9".toList, "0.9".toList⟩,
    none, none⟩

def messageJson (text : Text) : JSONObject :=
  [("content".toList, .arr [.obj [("type".toList, .str "text".toList), ("text".toList, .str text)]])]

def deltaJson (text : Text) : JSONObject :=
  [("type".toList, .str "content_block_delta".toList),
    ("delta".toList, .obj [("type".toList, .str "text_delta".toList), ("text".toList, .str text)])]

def stopJson : JSONObject := [("type".toList, .str "message_stop".toList)]

def eventLine (json : JSONObject) : Text := dataField ++ (OrgJson.obj json).print

def helloParse : Text → Option JSONObject :=
  sampleParse [messageJson "Hello".toList, deltaJson "Hel".toList, deltaJson "lo".toList, stopJson]

/-- One block, streamed in two deltas. -/
def helloRun : ModeRun :=
  .anthropic ⟨.claude, "key".toList, [], true⟩ (OrgJson.obj (messageJson "Hello".toList)).print
    [eventLine (deltaJson "Hel".toList), [], eventLine (deltaJson "lo".toList), [],
      eventLine stopJson] ["Hello".toList]

theorem helloRun_sameReply : helloRun.SameReply helloParse := by
  refine ⟨by decide +kernel, by decide, ?_, ?_⟩
  · exact ⟨_, _, rfl, rfl, .cons ⟨_, rfl, rfl⟩ .nil⟩
  · refine ⟨[.textDelta "Hel".toList, .other, .textDelta "lo".toList, .other, .messageStop], ?_,
      [["Hel".toList, "lo".toList]], rfl, rfl⟩
    exact .cons ⟨_, _, _, rfl, rfl, rfl, rfl, rfl⟩ (.cons (.inl rfl)
      (.cons ⟨_, _, _, rfl, rfl, rfl, rfl, rfl⟩ (.cons (.inl rfl)
        (.cons ⟨_, _, rfl, rfl, rfl⟩ .nil))))

theorem agrees_helloRun : helloRun.Agrees helloParse (fun _ => []) (sampleRequest 2048) :=
  (agrees_iff helloParse (by decide +kernel) (fun _ => []) (sampleRequest 2048) helloRun
    helloRun_sameReply).1 nofun

/-- Offline a request of 512 tokens has 256 in `complete`. -/
theorem offline_complete_limit :
    ¬ ∀ (parse : Text → Option JSONObject), parse "[DONE]".toList = none →
      ∀ (utfChars : Text → Bytes) (request : CompletionRequest) (r : ModeRun), r.SameReply parse →
        r.Agrees parse utfChars request := by
  intro h
  let bridge : LlamaBridge := (LlamaBridge.new.init none).loadModel "model.gguf".toList .loaded
  have hready : bridge.notReady = none := rfl
  have hagrees := h (fun _ => none) rfl (fun _ => []) (sampleRequest 512)
    (.offline bridge ["Hi".toList] ⟨1, 1, false⟩) hready
  obtain ⟨hmax, -⟩ := (offline_agrees hready).mp hagrees
  exact absurd hmax (by decide)

end ModeRun

end HeyNilo
