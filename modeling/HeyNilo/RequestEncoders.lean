import HeyNilo.OnlineProvider

namespace HeyNilo

/-- What a request body tells the model: the system texts in order, and the role and the content of
each other message. -/
structure Conversation where
  system : List Text
  turns : List (Text × Text)
deriving DecidableEq, Repr

namespace Conversation

/-- The role and the content of an element of `messages`. -/
def readMessage : OrgJson → Option (Text × Text)
  | .obj fields =>
    (JSONObject.getString fields "role".toList).bind fun role =>
      (JSONObject.getString fields "content".toList).map fun content => (role, content)
  | _ => none

def readMessages (body : JSONObject) : List (Text × Text) :=
  ((body.getJSONArray "messages".toList).getD []).filterMap readMessage

def isSystem (message : Text × Text) : Bool := message.1 = "system".toList

/-- The system messages stand among the others. -/
def ofOpenAIBody (body : JSONObject) : Conversation :=
  let messages := readMessages body
  ⟨(messages.filter isSystem).map (·.2), messages.filter fun message => !isSystem message⟩

/-- The top-level `system` field stands for the system messages. -/
def ofClaudeBody (body : JSONObject) : Conversation :=
  ⟨(body.optString "system".toList none).toList, readMessages body⟩

/-- The contents of the system messages of a request, and of its other messages, are there in
order. -/
def DropsNothing (c : Conversation) (request : CompletionRequest) : Prop :=
  ((request.messages.filter (·.role = .system)).map (·.content)).Sublist c.system ∧
    ((request.messages.filter (·.role ≠ .system)).map (·.content)).Sublist (c.turns.map (·.2))

instance (c : Conversation) (request : CompletionRequest) : Decidable (c.DropsNothing request) :=
  inferInstanceAs (Decidable (_ ∧ _))

end Conversation

namespace OnlineLLMProvider

open Conversation

/-- Both bodies carry one conversation and all of the request's messages. -/
def EncodersAgree (p : OnlineLLMProvider) (request : CompletionRequest) (stream : Bool) : Prop :=
  let openAI := ofOpenAIBody (p.buildOpenAIBody request stream)
  let claude := ofClaudeBody (p.buildClaudeBody request stream)
  openAI = claude ∧ openAI.DropsNothing request ∧ claude.DropsNothing request

instance (p : OnlineLLMProvider) (request : CompletionRequest) (stream : Bool) :
    Decidable (p.EncodersAgree request stream) :=
  inferInstanceAs (Decidable (_ ∧ _))

/-- The system text of a request, where it has one. -/
def systemTexts (request : CompletionRequest) : List Text :=
  if isBlank request.systemContent then [] else [request.systemContent]

/-- The other messages, as both encoders write them. -/
def turnsOf (messages : List ChatMessage) : List (Text × Text) :=
  (messages.filter (·.role ≠ .system)).map fun msg => (openAIRole msg.role, msg.content)

variable {p : OnlineLLMProvider} {request : CompletionRequest} {stream : Bool}

theorem isSystem_openAIRole (role : MessageRole) (content : Text) :
    isSystem (openAIRole role, content) = decide (role = .system) := by
  have hrole : ∀ role : MessageRole, (openAIRole role = "system".toList) ↔ role = .system := by
    intro role
    cases role <;> decide
  rw [isSystem, decide_eq_decide]
  exact hrole role

theorem readMessages_openAI : readMessages (p.buildOpenAIBody request stream) =
    (systemTexts request).map (fun text => ("system".toList, text)) ++
      request.messages.map fun msg => (openAIRole msg.role, msg.content) := by
  have hmessages : (p.buildOpenAIBody request stream).getJSONArray "messages".toList =
      some ((systemTexts request).map (jsonMessage "system".toList) ++
        request.messages.map fun msg => jsonMessage (openAIRole msg.role) msg.content) := by
    unfold buildOpenAIBody systemTexts
    split <;> rfl
  rw [readMessages, hmessages, Option.getD_some, List.filterMap_append, List.filterMap_map,
    List.filterMap_map]
  congr 1
  · exact congrFun List.filterMap_eq_map (systemTexts request)
  · exact congrFun List.filterMap_eq_map request.messages

theorem claudeMessage_eq (msg : ChatMessage) :
    (claudeMessage msg).bind readMessage =
      if msg.role ≠ .system then some (openAIRole msg.role, msg.content) else none := by
  obtain ⟨role, content⟩ := msg
  cases role <;> rfl

theorem readMessages_claude :
    readMessages (p.buildClaudeBody request stream) = turnsOf request.messages := by
  have hmessages : (p.buildClaudeBody request stream).getJSONArray "messages".toList =
      some (request.messages.filterMap claudeMessage) := by
    unfold buildClaudeBody
    split <;> rfl
  rw [readMessages, hmessages, Option.getD_some, List.filterMap_filterMap, turnsOf]
  simp only [claudeMessage_eq]
  induction request.messages with
  | nil => rfl
  | cons msg messages ih =>
    by_cases hrole : msg.role = .system
    · simpa [hrole] using ih
    · simpa [hrole] using ih

theorem system_claude : ((p.buildClaudeBody request stream).optString "system".toList none).toList =
    systemTexts request := by
  unfold buildClaudeBody systemTexts
  split <;> rfl

theorem ofOpenAIBody_eq : ofOpenAIBody (p.buildOpenAIBody request stream) =
    ⟨systemTexts request ++ (request.messages.filter (·.role = .system)).map (·.content),
      turnsOf request.messages⟩ := by
  have hread := @readMessages_openAI p request stream
  have hleading (texts : List Text) :
      (texts.map fun text => ("system".toList, text)).filter isSystem =
        texts.map fun text => ("system".toList, text) :=
    List.filter_eq_self.mpr fun message hmessage => by
      obtain ⟨text, -, rfl⟩ := List.mem_map.mp hmessage
      exact decide_eq_true rfl
  have hothers (texts : List Text) :
      (texts.map fun text => ("system".toList, text)).filter (fun message => !isSystem message) =
        [] :=
    List.filter_eq_nil_iff.mpr fun message hmessage => by
      obtain ⟨text, -, rfl⟩ := List.mem_map.mp hmessage
      simp [isSystem]
  have hsystem : isSystem ∘ (fun msg : ChatMessage => (openAIRole msg.role, msg.content)) =
      fun msg => decide (msg.role = .system) :=
    funext fun msg => isSystem_openAIRole msg.role msg.content
  have hturn : (fun message => !isSystem message) ∘
      (fun msg : ChatMessage => (openAIRole msg.role, msg.content)) =
      fun msg => decide (msg.role ≠ .system) :=
    funext fun msg => by simp [isSystem_openAIRole]
  rw [ofOpenAIBody, hread, List.filter_append, List.filter_append, hleading, hothers,
    List.filter_map, List.filter_map, hsystem, hturn, List.map_append, List.map_map, List.map_map,
    List.nil_append]
  congr 2
  exact List.map_id _

theorem ofClaudeBody_eq : ofClaudeBody (p.buildClaudeBody request stream) =
    ⟨systemTexts request, turnsOf request.messages⟩ := by
  rw [ofClaudeBody, system_claude, readMessages_claude]

/-- The two bodies carry the same conversation, and all of it, exactly when no message of the
request is a system message. -/
theorem encoders_agree_iff (p : OnlineLLMProvider) (request : CompletionRequest) (stream : Bool) :
    p.EncodersAgree request stream ↔ ∀ msg ∈ request.messages, msg.role ≠ .system := by
  have hturns : (turnsOf request.messages).map (·.2) =
      (request.messages.filter (·.role ≠ .system)).map (·.content) := by
    rw [turnsOf, List.map_map]
    rfl
  unfold EncodersAgree
  rw [ofOpenAIBody_eq, ofClaudeBody_eq]
  constructor
  · rintro ⟨hsame, -, -⟩ msg hmsg hrole
    have hnone : (request.messages.filter (·.role = .system)).map (·.content) = [] :=
      List.append_right_eq_self.mp (congrArg Conversation.system hsame)
    have hin : msg ∈ request.messages.filter (·.role = .system) :=
      List.mem_filter.mpr ⟨hmsg, decide_eq_true hrole⟩
    rw [List.map_eq_nil_iff.mp hnone] at hin
    cases hin
  · intro hroles
    have hnone : request.messages.filter (·.role = .system) = [] :=
      List.filter_eq_nil_iff.mpr fun msg hmsg => by simpa using hroles msg hmsg
    refine ⟨by rw [hnone, List.map_nil, List.append_nil], ⟨?_, ?_⟩, ?_, ?_⟩
    · exact List.sublist_append_right _ _
    · rw [hturns]
    · rw [hnone]
      exact List.nil_sublist _
    · rw [hturns]

/-- A system message in the middle of a conversation. -/
def guidedRequest : CompletionRequest where
  messages := [⟨.user, "hi".toList⟩, ⟨.system, "be brief".toList⟩, ⟨.user, "go on".toList⟩]
  maxTokens := 2048
  temperature := ⟨"0.7".toList, "0.699999988079071".toList⟩
  topP := ⟨"0.9".toList, "0.8999999761581421".toList⟩
  systemPrompt := some "You are SMITH.".toList
  memoryContext := none

/-- Claude is not told to be brief. -/
theorem claude_drops_system_message :
    ¬ ∀ (p : OnlineLLMProvider) (request : CompletionRequest) (stream : Bool),
      p.EncodersAgree request stream := by
  intro h
  have hagree := h ⟨.claude, "key".toList, [], true⟩ guidedRequest true
  exact absurd hagree (by decide +kernel)

end OnlineLLMProvider

end HeyNilo
