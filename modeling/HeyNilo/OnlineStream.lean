import HeyNilo.Machine
import HeyNilo.OnlineProvider

namespace HeyNilo

/-- Where the body of a `stream` flow stands. -/
inductive StreamPhase where
  /-- Its call is not made yet. -/
  | preparing
  | calling
  | reading
  /-- It is about to emit, and then reads on or ends. `byCancel`: an exception of the cancelled call. -/
  | emitting (response : LLMResponse) (goesOn byCancel : Bool)
  | ended
deriving DecidableEq, Repr

/-- One stream of an `OnlineLLMProvider`. `callRegistered`: `currentHttpCall` is its call.
`currentGenerationJob` is never set. -/
structure OnlineStream where
  phase : StreamPhase
  fullResponse : Text
  /-- The lines that have arrived and are not read yet. -/
  buffered : List Text
  callRegistered : Bool
  callCancelled : Bool
  emitted : List LLMResponse
  /-- `cancelGeneration` has been called. -/
  cancelled : Bool
deriving DecidableEq, Repr

namespace OnlineStream

open OnlineLLMProvider

inductive ExecuteResult where
  | threw (message : Option Text)
  | failed (code : Nat) (errorBody : Text)
  | ok
deriving DecidableEq, Repr

inductive Event where
  | prepare
  | execute (result : ExecuteResult)
  | arrive (lines : List Text)
  | readLine
  | endOfBody
  | readThrows (message : Option Text)
  | emit
  | cancelGeneration
  /-- Another stream of the provider registers its call. -/
  | otherRegisters
deriving DecidableEq, Repr

def start : OnlineStream := ⟨.preparing, [], [], false, false, [], false⟩

variable (parse : Text → Option JSONObject) (p : OnlineLLMProvider)

/-- The exception reaches the last `catch` of `stream`. -/
def throws (s : OnlineStream) (message : Option Text) : OnlineStream :=
  { s with phase := .emitting (.failure (message.getD "Streaming error".toList)) false s.callCancelled }

def fail (s : OnlineStream) (error : Text) : OnlineStream :=
  { s with phase := .emitting (.failure error) false false }

def prepare (s : OnlineStream) : OnlineStream :=
  if p.isAvailable then
    match p.provider with
    | .openai | .deepseek | .openrouter => { s with phase := .calling, callRegistered := true }
    | .claude | .kimi => { s with phase := .calling }
    | .offline => s.fail "Offline provider should not use OnlineLLMProvider".toList
  else
    s.fail ("API key not configured for ".toList ++ p.provider.name ++
      ". Please add your API key in settings.".toList)

/-- The response to an error status. -/
def statusError (code : Nat) (errorBody : Text) : LLMResponse :=
  match p.provider with
  | .claude | .kimi => apiError code errorBody
  | .openai | .deepseek | .openrouter | .offline => .failure (p.userFriendlyError code errorBody)

/-- A cancelled call always throws. -/
def execute (s : OnlineStream) : ExecuteResult → Option OnlineStream
  | .threw message => some (s.throws message)
  | .failed code errorBody =>
    if s.callCancelled then none
    else some { s with phase := .emitting (statusError p code errorBody) false false }
  | .ok => if s.callCancelled then none else some { s with phase := .reading }

/-- The text is appended, and then to be emitted. -/
def append (s : OnlineStream) (text : Text) : OnlineStream :=
  { s with
    fullResponse := s.fullResponse ++ text
    phase := .emitting (.streaming (s.fullResponse ++ text)) true false }

def openAILine (s : OnlineStream) (line : Text) : OnlineStream :=
  if dataField.isPrefixOf line then
    let data := line.drop 6
    if data = "[DONE]".toList then { s with phase := .emitting (.completed s.fullResponse) false false }
    else
      let content := chunkContent parse data
      if content.isEmpty then s else s.append content
  else s

def claudeLine (s : OnlineStream) (line : Text) : OnlineStream :=
  if dataField.isPrefixOf line then
    match claudeEvent parse (line.drop 6) with
    | some (.delta text) => s.append text
    | some .stop => { s with phase := .emitting (.completed s.fullResponse) true false }
    | none => s
  else s

def readLine (s : OnlineStream) (line : Text) : OnlineStream :=
  match p.provider with
  | .claude | .kimi => s.claudeLine parse line
  | .openai | .deepseek | .openrouter | .offline => s.openAILine parse line

def step (s : OnlineStream) : Event → Option OnlineStream
  | .prepare => if s.phase = .preparing then some (s.prepare p) else none
  | .execute result => if s.phase = .calling then s.execute p result else none
  | .arrive lines =>
    match s.phase with
    | .reading | .emitting _ true _ =>
      if s.callCancelled then none else some { s with buffered := s.buffered ++ lines }
    | _ => none
  | .readLine =>
    match s.phase, s.buffered with
    | .reading, line :: rest => some ({ s with buffered := rest }.readLine parse p line)
    | _, _ => none
  | .endOfBody =>
    match s.phase, s.buffered with
    | .reading, [] => some { s with phase := .ended }
    | _, _ => none
  | .readThrows message =>
    match s.phase, s.buffered with
    | .reading, [] => some (s.throws message)
    | _, _ => none
  | .emit =>
    match s.phase with
    | .emitting response goesOn _ =>
      some { s with
        emitted := s.emitted ++ [response]
        phase := if goesOn then .reading else .ended }
    | _ => none
  | .cancelGeneration =>
    some { s with
      callCancelled := s.callCancelled || s.callRegistered
      callRegistered := false
      cancelled := true }
  | .otherRegisters => some { s with callRegistered := false }

end OnlineStream

end HeyNilo
