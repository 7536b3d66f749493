import HeyNilo.InferenceQueue
import HeyNilo.ReplyFilter

namespace HeyNilo

structure Message where
  id : Text
  content : Text
  isUser : Bool
  isStreaming : Bool := false
deriving DecidableEq, Repr

/-- `streamingTokenBuffer` and `isCollectingImEnd`. -/
structure TokenFilter where
  buffer : Text
  isCollectingImEnd : Bool
deriving DecidableEq, Repr

def TokenFilter.collect (f : TokenFilter) (part : Text) : Option Text × TokenFilter :=
  (none, { f with buffer := f.buffer ++ part })

def filterStreamingTokenForDisplay (f : TokenFilter) (token : Text) : Option Text × TokenFilter :=
  let trimmed := trim token
  if containsText "<|im_end|>".toList token || containsText "<|im_start|>".toList token then
    (some (replaceText "<|im_start|>".toList [] (replaceText "<|im_end|>".toList [] token)), f)
  else if trimmed = ['<'] then (none, ⟨['<'], true⟩)
  else if f.isCollectingImEnd && trimmed = ['|'] && f.buffer = ['<'] then f.collect ['|']
  else if f.isCollectingImEnd && trimmed = "im".toList && f.buffer = "<|".toList then
    f.collect "im".toList
  else if f.isCollectingImEnd && trimmed = "_end".toList && f.buffer = "<|im".toList then
    f.collect "_end".toList
  else if f.isCollectingImEnd && trimmed = ['|'] && f.buffer = "<|im_end".toList then f.collect ['|']
  else if f.isCollectingImEnd && trimmed = ['>'] && f.buffer = "<|im_end|".toList then
    (none, ⟨[], false⟩)
  else if f.isCollectingImEnd then (some (f.buffer ++ token), ⟨[], false⟩)
  else (some token, f)

/-- What the stream of an online request leads to on the UI thread. -/
inductive OnlineUpdate where
  | streamed (text : Text)
  | completed (text : Text)
  /-- An error response is not shown. -/
  | errorResponse
  | failed (message : Text)
  | cancelled
deriving DecidableEq, Repr

/-- The job of an online request, with what `sendTextMessage` captured. -/
structure OnlineRequest where
  currentMessages : List Message
  userMessage : Message
  aiMessage : Message
  /-- The job has not been cancelled. -/
  isActive : Bool
  /-- It collects the stream: it is not in one of its handlers yet. -/
  collects : Bool
  hasEnded : Bool
deriving DecidableEq, Repr

/-- The message list with what its writers share. `voiceIds` are the AI messages of the voice turns,
`usedIds` all ids drawn so far. -/
structure ChatList where
  messages : List Message
  isGenerating : Bool
  requests : List OnlineRequest
  chatGenerationJob : Option Nat
  tokenFilter : TokenFilter
  voiceIds : List Text
  usedIds : List Text
deriving DecidableEq, Repr

namespace OnlineRequest

/-- The list that an update of the request puts in place of the current one. -/
def rebuild (r : OnlineRequest) : OnlineUpdate → Option (List Message)
  | .streamed text => some (r.currentMessages ++ [r.userMessage,
      { r.aiMessage with content := filterAiResponse text }])
  | .completed text => some (r.currentMessages ++ [r.userMessage,
      { r.aiMessage with content := filterAiResponse text, isStreaming := false }])
  | .errorResponse => none
  | .failed message => some (r.currentMessages ++ [r.userMessage,
      { r.aiMessage with content := "Error: ".toList ++ message, isStreaming := false }])
  | .cancelled => some (r.currentMessages ++ [r.userMessage, { r.aiMessage with isStreaming := false }])

end OnlineRequest

namespace ChatList

def start : ChatList where
  messages := []
  isGenerating := false
  requests := []
  chatGenerationJob := none
  tokenFilter := ⟨[], false⟩
  voiceIds := []
  usedIds := []

inductive Event where
  /-- The user sends a text; the ids are those of the two new messages. -/
  | send (text userId aiId : Text) (online : Bool)
  | online (i : Nat) (update : OnlineUpdate)
  /-- `invokeOnCompletion` of the job. -/
  | jobEnds (i : Nat)
  | queueResponse (response : InferenceQueue.Response)
  | transcription (text : Text) (isFinal : Bool) (userId aiId : Text)
  /-- `onResponseUpdate` for the voice turn whose AI message is `owner`. -/
  | voiceUpdate (owner text : Text) (isComplete : Bool)
  | stop (isVoiceModeActive : Bool)
deriving DecidableEq, Repr

def fresh (s : ChatList) (userId aiId : Text) : Bool :=
  !s.usedIds.contains userId && !s.usedIds.contains aiId && userId != aiId

def addTurn (s : ChatList) (text userId aiId : Text) : ChatList :=
  { s with
    messages := s.messages ++ [⟨userId, text, true, false⟩, ⟨aiId, [], false, true⟩]
    isGenerating := true
    usedIds := s.usedIds ++ [userId, aiId] }

def sendTextMessage (s : ChatList) (text userId aiId : Text) (online : Bool) : ChatList :=
  let t := s.addTurn text userId aiId
  if online then
    { t with
      requests := s.requests ++
        [⟨s.messages, ⟨userId, text, true, false⟩, ⟨aiId, [], false, true⟩, true, true, false⟩]
      chatGenerationJob := some s.requests.length }
  else t

def updateMessage (s : ChatList) (id : Text) (change : Message → Message) : ChatList :=
  { s with messages := s.messages.map fun msg => if msg.id = id then change msg else msg }

/-- `isGenerating` goes off when nothing is streaming any more. -/
def settle (s : ChatList) : ChatList :=
  if s.messages.all (fun msg => !msg.isStreaming) then { s with isGenerating := false } else s

def queueResponse (s : ChatList) (response : InferenceQueue.Response) : ChatList :=
  match response.error with
  | some error =>
    (s.updateMessage response.requestId fun msg =>
      { msg with content := "Error: ".toList ++ error, isStreaming := false }).settle
  | none =>
    if response.isComplete then
      (s.updateMessage response.requestId fun msg =>
        { msg with content := filterAiResponse msg.content, isStreaming := false }).settle
    else
      match response.token with
      | some token =>
        let filtered := filterStreamingTokenForDisplay s.tokenFilter token
        let s := { s with tokenFilter := filtered.2 }
        match filtered.1 with
        | some filteredToken =>
          s.updateMessage response.requestId fun msg =>
            { msg with content := msg.content ++ filteredToken }
        | none => s
      | none => s

/-- An update of an online request. In a cancelled job `withContext` throws before its block; an
exception leaves the stream for good. -/
def onlineUpdate (s : ChatList) (i : Nat) (r : OnlineRequest) (update : OnlineUpdate) : ChatList :=
  if r.isActive then
    let s :=
      match update with
      | .failed _ | .cancelled => { s with requests := s.requests.set i { r with collects := false } }
      | _ => s
    match r.rebuild update with
    | some messages =>
      { s with
        messages := messages
        isGenerating := match update with
          | .streamed _ => s.isGenerating
          | _ => false }
    | none => s
  else { s with requests := s.requests.set i { r with collects := false } }

def markStopped (s : ChatList) : ChatList :=
  { s with
    messages := s.messages.map fun msg =>
      if !msg.isUser && msg.isStreaming then { msg with isStreaming := false } else msg
    isGenerating := false }

def cancelJob (s : ChatList) : ChatList :=
  { s with
    chatGenerationJob := none
    requests := match s.chatGenerationJob with
      | some i => s.requests.modify i fun r => { r with isActive := false }
      | none => s.requests }

/-- The Stop handler: the text mode part, and the voice mode part. What it tells the queue and the
voice pipeline comes back as responses and updates. -/
def stop (s : ChatList) (isVoiceModeActive : Bool) : ChatList :=
  let s := if s.isGenerating then s.cancelJob.markStopped else s
  if isVoiceModeActive then s.markStopped else s

def step (s : ChatList) : Event → Option ChatList
  | .send text userId aiId online =>
    if !isBlank text && !s.isGenerating && s.fresh userId aiId then
      some (s.sendTextMessage text userId aiId online)
    else none
  | .online i update =>
    s.requests[i]?.bind fun r => if r.collects then some (s.onlineUpdate i r update) else none
  | .jobEnds i =>
    s.requests[i]?.bind fun r =>
      if r.hasEnded then none
      else some { s with
        requests := s.requests.set i { r with collects := false, hasEnded := true }
        chatGenerationJob := none }
  | .queueResponse response =>
    -- the ids of requests are those of AI messages, or of the voice pipeline's own
    if s.messages.all (fun msg => !(msg.isUser && msg.id = response.requestId)) then
      some (s.queueResponse response)
    else none
  | .transcription text isFinal userId aiId =>
    if isFinal && !isBlank text then
      if s.fresh userId aiId then
        some { s.addTurn text userId aiId with voiceIds := s.voiceIds ++ [aiId] }
      else none
    else some s
  | .voiceUpdate owner text isComplete =>
    if s.voiceIds.contains owner then
      some { s with
        messages := s.messages.map fun msg =>
          if !msg.isUser && msg.isStreaming then
            { msg with content := filterAiResponse text, isStreaming := !isComplete }
          else msg
        isGenerating := s.isGenerating && !isComplete }
    else none
  | .stop isVoiceModeActive => some (s.stop isVoiceModeActive)

end ChatList

end HeyNilo
