import HeyNilo.LlamaBridge
import HeyNilo.OnlineProvider

namespace HeyNilo

namespace OfflineLLMProvider

def userMessage (request : CompletionRequest) : Text :=
  ((request.messages.filter fun msg => msg.role = .user).getLast?.map (·.content)).getD []

def defaultSystemPrompt : Text :=
  "You are SMITH, a friendly AI assistant. Be helpful and concise.".toList

def buildSystemPromptString (request : CompletionRequest) : Text :=
  if isBlank request.systemContent then defaultSystemPrompt else request.systemContent

/-- How the wait for the bridge ends in `stream`: the callback is completed or gets an error, or 75
seconds are over. -/
inductive StreamEnding where
  | completed
  | error (message : Text)
  | timedOut
deriving DecidableEq, Repr

/-- `complete` after its wait of at most 60 seconds, with the tokens and the error that its callback
has got by then. -/
def complete (bridge : LlamaBridge) (tokens : List Text) (error : Option Text) : LLMResponse :=
  if bridge.isLoaded then
    match error with
    | some message => .failure message
    | none => .completed tokens.flatten
  else .failure "Model not loaded".toList

def streamLoop (ending : StreamEnding) : Text → List Text → List LLMResponse
  | fullResponse, token :: tokens =>
    .streaming (fullResponse ++ token) :: streamLoop ending (fullResponse ++ token) tokens
  | fullResponse, [] =>
    match ending with
    | .completed => [.completed fullResponse]
    | .error message => [.failure message]
    | .timedOut =>
      [{ LLMResponse.completed fullResponse with error := some "Generation timed out".toList }]

def stream (bridge : LlamaBridge) (tokens : List Text) (ending : StreamEnding) :
    List LLMResponse :=
  if bridge.isLoaded then streamLoop ending [] tokens
  else [.failure "Model not loaded".toList]

section

-- `GetStringUTFChars`
variable (utfChars : Text → Bytes)

/-- What `complete` asks of the bridge; `generate` has a limit of its own. -/
def completeCall (bridge : LlamaBridge) (request : CompletionRequest) : LlamaBridge :=
  (bridge.setSystemPrompt (utfChars (buildSystemPromptString request))).generate
    (utfChars (userMessage request))

/-- What `stream` asks of the bridge. -/
def streamCall (bridge : LlamaBridge) (request : CompletionRequest) : LlamaBridge :=
  (bridge.setSystemPrompt (utfChars (buildSystemPromptString request))).stopGeneration
    |>.generateWithMaxTokens (utfChars (userMessage request)) request.maxTokens.toNat

end

end OfflineLLMProvider

end HeyNilo
