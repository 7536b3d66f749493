import HeyNilo.OrgJson
import HeyNilo.ProviderTurn

namespace HeyNilo

inductive ApiProvider where
  | offline
  | openai
  | claude
  | deepseek
  | kimi
  | openrouter
deriving DecidableEq, Repr

def ApiProvider.name : ApiProvider → Text
  | .offline => "OFFLINE".toList
  | .openai => "OPENAI".toList
  | .claude => "CLAUDE".toList
  | .deepseek => "DEEPSEEK".toList
  | .kimi => "KIMI".toList
  | .openrouter => "OPENROUTER".toList

/-- `ProviderConfig.defaultModel` -/
def ApiProvider.defaultModel : ApiProvider → Text
  | .offline => "tinyllama-1.1b-chat".toList
  | .openai => "gpt-4o-mini".toList
  | .claude => "claude-3-haiku-20240307".toList
  | .deepseek => "deepseek-chat".toList
  | .kimi => "moonshot-v1-8k".toList
  | .openrouter => "nvidia/llama-3.1-nemotron-70b-instruct".toList

inductive MessageRole where
  | system
  | user
  | assistant
deriving DecidableEq, Repr

structure ChatMessage where
  role : MessageRole
  content : Text
deriving DecidableEq, Repr

/-- A Kotlin `Float`, by the literals it and its `toDouble()` print as in JSON. -/
structure FloatLiteral where
  float : Text
  double : Text
deriving DecidableEq, Repr

structure CompletionRequest where
  messages : List ChatMessage
  maxTokens : Int
  temperature : FloatLiteral
  topP : FloatLiteral
  systemPrompt : Option Text
  memoryContext : Option Text
deriving DecidableEq, Repr

/-- The system prompt and the memory context, with an empty line between them. -/
def CompletionRequest.systemContent (request : CompletionRequest) : Text :=
  let prompt := request.systemPrompt.getD []
  match request.memoryContext with
  | some memory => if prompt.isEmpty then memory else prompt ++ "\n\n".toList ++ memory
  | none => prompt

def jsonMessage (role content : Text) : OrgJson :=
  .obj [("role".toList, .str role), ("content".toList, .str content)]

/-- What `OnlineLLMProvider` is built from, and whether `initialize` has found an API key. -/
structure OnlineLLMProvider where
  provider : ApiProvider
  apiKey : Text
  modelName : Text
  isInitialized : Bool
deriving DecidableEq, Repr

/-- The lines of a response body, and the message of the exception that ends it, if one does. -/
structure ServerBody where
  lines : List Text
  broken : Option (Option Text)
deriving DecidableEq, Repr

/-- What comes of `call.execute()`. -/
inductive HttpResult where
  /-- The request, or the reading of an error body, throws. -/
  | threw (message : Option Text)
  | failed (code : Nat) (errorBody : Text)
  | ok (body : ServerBody)
deriving DecidableEq, Repr

/-- What a flow has emitted, and the message of the exception that it ended with, if it did. -/
structure Emissions where
  emitted : List LLMResponse
  thrown : Option (Option Text)
deriving DecidableEq, Repr

def Emissions.emit (response : LLMResponse) (rest : Emissions) : Emissions :=
  { rest with emitted := response :: rest.emitted }

def LLMResponse.failure (error : Text) : LLMResponse := { error := some error, isComplete := true }

namespace OnlineLLMProvider

/-- `initialize` -/
def initialized (p : OnlineLLMProvider) : OnlineLLMProvider :=
  { p with isInitialized := !isBlank p.apiKey }

def isAvailable (p : OnlineLLMProvider) : Bool := !isBlank p.apiKey && p.isInitialized

def model (p : OnlineLLMProvider) : Text :=
  if isBlank p.modelName then p.provider.defaultModel else p.modelName

def openAIRole : MessageRole → Text
  | .user => "user".toList
  | .assistant => "assistant".toList
  | .system => "system".toList

def buildOpenAIBody (p : OnlineLLMProvider) (request : CompletionRequest) (stream : Bool) :
    JSONObject :=
  let system := if isBlank request.systemContent then []
    else [jsonMessage "system".toList request.systemContent]
  let messages := request.messages.map fun msg => jsonMessage (openAIRole msg.role) msg.content
  [("model".toList, .str p.model), ("messages".toList, .arr (system ++ messages)),
    ("max_tokens".toList, .num (toString request.maxTokens).toList),
    ("temperature".toList, .num request.temperature.float),
    ("top_p".toList, .num request.topP.float), ("stream".toList, .bool stream)]

/-- The system messages of the conversation are left out here. -/
def claudeMessage (msg : ChatMessage) : Option OrgJson :=
  match msg.role with
  | .user => some (jsonMessage "user".toList msg.content)
  | .assistant => some (jsonMessage "assistant".toList msg.content)
  | .system => none

def buildClaudeBody (p : OnlineLLMProvider) (request : CompletionRequest) (stream : Bool) :
    JSONObject :=
  let system := if isBlank request.systemContent then []
    else [("system".toList, OrgJson.str request.systemContent)]
  ("model".toList, .str p.model) :: system ++
    [("messages".toList, .arr (request.messages.filterMap claudeMessage)),
      ("max_tokens".toList, .num (toString request.maxTokens).toList),
      ("temperature".toList, .num request.temperature.double),
      ("top_p".toList, .num request.topP.double), ("stream".toList, .bool stream)]

/-- The error texts of `emitOpenAICompatibleStream`. -/
def userFriendlyError (p : OnlineLLMProvider) (code : Nat) (errorBody : Text) : Text :=
  match code with
  | 401 =>
    "Invalid API key. Please check your ".toList ++ p.provider.name ++
      " API key in settings.".toList
  | 402 =>
    match p.provider with
    | .deepseek => "Insufficient balance. Please top up your DeepSeek account.".toList
    | .openrouter =>
      "Model requires credits. Try a free model or add credits at openrouter.ai".toList
    | _ => "Insufficient balance. Please check your account.".toList
  | 404 =>
    match p.provider with
    | .openrouter =>
      "Model not found. The model may be unavailable or renamed. Check openrouter.ai/models".toList
    | _ => "API endpoint not found.".toList
  | 429 => "Rate limit exceeded. Please wait a moment and try again.".toList
  | 500 | 502 | 503 | 504 => p.provider.name ++ " server error. Please try again later.".toList
  | _ => "API Error ".toList ++ (toString code).toList ++ ": ".toList ++ errorBody

def apiError (code : Nat) (errorBody : Text) : LLMResponse :=
  .failure ("API Error ".toList ++ (toString code).toList ++ ": ".toList ++ errorBody)

def dataField : Text := "data: ".toList

/-- The text of a choice; one with a finish reason is passed over whole. -/
def choiceContent (choice : JSONObject) : Text :=
  let finishReason := choice.optString "finish_reason".toList none
  if finishReason.isSome && finishReason ≠ some "null".toList then []
  else
    match choice.optJSONObject "delta".toList with
    | some delta =>
      if delta.has "content".toList then (delta.optString "content".toList (some [])).getD [] else []
    | none => []

section

-- the constructor of `JSONObject` from a text; `none` is its exception
variable (parse : Text → Option JSONObject)

/-- The new text of an SSE chunk. A chunk that throws is skipped. -/
def chunkContent (data : Text) : Text :=
  match (parse data).bind fun json => json.getJSONArray "choices".toList with
  | none => []
  | some choices =>
    if choices.isEmpty then [] else ((elementObject choices 0).map choiceContent).getD []

/-- The read loop of `emitOpenAICompatibleStream`. -/
def openAILoop (broken : Option (Option Text)) : Text → List Text → Emissions
  | _, [] => ⟨[], broken⟩
  | fullResponse, line :: lines =>
    if dataField.isPrefixOf line then
      let data := line.drop 6
      if data = "[DONE]".toList then ⟨[.completed fullResponse], none⟩
      else
        let content := chunkContent parse data
        if content.isEmpty then openAILoop broken fullResponse lines
        else
          .emit (.streaming (fullResponse ++ content))
            (openAILoop broken (fullResponse ++ content) lines)
    else openAILoop broken fullResponse lines

def emitOpenAICompatibleStream (p : OnlineLLMProvider) : HttpResult → Emissions
  | .threw message => ⟨[], some message⟩
  | .failed code errorBody => ⟨[.failure (p.userFriendlyError code errorBody)], none⟩
  | .ok body => openAILoop parse body.broken [] body.lines

/-- What an Anthropic event means to the loop. -/
inductive ClaudeEvent where
  | delta (text : Text)
  | stop
deriving DecidableEq, Repr

def claudeEvent (data : Text) : Option ClaudeEvent :=
  (parse data).bind fun json =>
    let type := (json.optString "type".toList (some [])).getD []
    if type = "content_block_delta".toList then
      (json.getJSONObject "delta".toList).bind fun delta =>
        let text := (delta.optString "text".toList (some [])).getD []
        if text.isEmpty then none else some (.delta text)
    else if type = "message_stop".toList then some .stop
    else none

/-- The read loop of `emitClaudeStream`; it reads on after a `message_stop`. -/
def claudeLoop (broken : Option (Option Text)) : Text → List Text → Emissions
  | _, [] => ⟨[], broken⟩
  | fullResponse, line :: lines =>
    if dataField.isPrefixOf line then
      match claudeEvent parse (line.drop 6) with
      | some (.delta text) =>
        .emit (.streaming (fullResponse ++ text)) (claudeLoop broken (fullResponse ++ text) lines)
      | some .stop => .emit (.completed fullResponse) (claudeLoop broken fullResponse lines)
      | none => claudeLoop broken fullResponse lines
    else claudeLoop broken fullResponse lines

def emitClaudeStream : HttpResult → Emissions
  | .threw message => ⟨[], some message⟩
  | .failed code errorBody => ⟨[apiError code errorBody], none⟩
  | .ok body => claudeLoop parse body.broken [] body.lines

/-- The last `catch` of `stream`. -/
def catchStreaming (e : Emissions) : List LLMResponse :=
  match e.thrown with
  | some message => e.emitted ++ [.failure (message.getD "Streaming error".toList)]
  | none => e.emitted

def stream (p : OnlineLLMProvider) (result : HttpResult) : List LLMResponse :=
  if p.isAvailable then
    catchStreaming <|
      match p.provider with
      | .openai | .deepseek | .openrouter => p.emitOpenAICompatibleStream parse result
      | .claude | .kimi => emitClaudeStream parse result
      | .offline =>
        ⟨[.failure "Offline provider should not use OnlineLLMProvider".toList], none⟩
  else
    [.failure ("API key not configured for ".toList ++ p.provider.name ++
      ". Please add your API key in settings.".toList)]

/-- What the blocking calls get: `body` is the whole body. -/
inductive BlockingResult where
  | threw (message : Option Text)
  | failed (code : Nat) (errorBody : Text)
  | ok (body : Text)
deriving DecidableEq, Repr

/-- The text in a blocking OpenAI answer; `none` is an exception. -/
def openAIMessageText (body : Text) : Option Text :=
  (parse body).bind fun json =>
    (json.getJSONArray "choices".toList).bind fun choices =>
      (elementObject choices 0).bind fun choice =>
        (choice.getJSONObject "message".toList).bind fun message =>
          message.getString "content".toList

/-- The text in a blocking Anthropic answer: that of its first block. -/
def claudeMessageText (body : Text) : Option Text :=
  (parse body).bind fun json =>
    (json.getJSONArray "content".toList).bind fun content =>
      (elementObject content 0).bind fun block => block.getString "text".toList

/-- `makeOpenAICompatibleRequest` and `makeClaudeRequest` with the `catch` of `complete`; `failure`
is the message of the exception a wrong body causes. -/
def blockingResponse (textOf : Text → Option Text) (failure : Option Text) :
    BlockingResult → LLMResponse
  | .threw message => .failure (message.getD "API request failed".toList)
  | .failed code errorBody => apiError code errorBody
  | .ok body =>
    match textOf body with
    | some text => .completed text
    | none => .failure (failure.getD "API request failed".toList)

def complete (p : OnlineLLMProvider) (failure : Option Text) (result : BlockingResult) :
    LLMResponse :=
  if p.isAvailable then
    match p.provider with
    | .openai | .deepseek | .openrouter => blockingResponse (openAIMessageText parse) failure result
    | .claude | .kimi => blockingResponse (claudeMessageText parse) failure result
    | .offline => .failure "Empty response from API".toList
  else .failure ("API key not configured for ".toList ++ p.provider.name)

end

end OnlineLLMProvider

end HeyNilo
