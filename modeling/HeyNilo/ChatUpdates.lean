import HeyNilo.ChatList
import HeyNilo.Machine
import Mathlib.Data.List.Forall2

namespace HeyNilo

namespace ChatList

variable {s t : ChatList} {e : Event} {r : OnlineRequest} {update : OnlineUpdate}

/-- Content and streaming flag of an AI message have changed. -/
def Updated (m m' : Message) : Prop := m.isUser = false ∧ m'.isUser = false ∧ m'.id = m.id

/-- What an event may do to a message: an update changes the AI message of its request, and Stop
takes AI messages out of their streaming. -/
def Changes (s : ChatList) (e : Event) (m m' : Message) : Prop :=
  m' = m ∨
    match e with
    | .online i _ => Updated m m' ∧ ∃ r, s.requests[i]? = some r ∧ m.id = r.aiMessage.id
    | .queueResponse response => Updated m m' ∧ m.id = response.requestId
    | .voiceUpdate owner _ _ => Updated m m' ∧ m.id = owner
    | .stop _ => m.isUser = false ∧ m' = { m with isStreaming := false }
    | .send .. | .jobEnds _ | .transcription .. => False

/-- No message is lost, and those that were there change as the event may change them. -/
def Kept (s : ChatList) (e : Event) (t : ChatList) : Prop :=
  ∃ front added, t.messages = front ++ added ∧ List.Forall₂ (s.Changes e) s.messages front

/-- Since the request was sent no message was added and no earlier one has changed; and no voice update
finds an AI message of another request streaming, unless it leaves it as it is. -/
def UpToDate (s : ChatList) : Event → Prop
  | .online i update =>
    ∀ r ∈ s.requests[i]?, r.isActive = true → update ≠ .errorResponse →
      s.messages.dropLast = r.currentMessages ++ [r.userMessage]
  | .voiceUpdate owner text isComplete =>
    ∀ msg ∈ s.messages, msg.isUser = false → msg.isStreaming = true →
      msg.id = owner ∨ msg.content = filterAiResponse text ∧ isComplete = false
  | _ => True

/-- The messages of an online request are where it put them. -/
structure Placed (messages : List Message) (r : OnlineRequest) : Prop where
  before : r.currentMessages.map (·.id) = (messages.map (·.id)).take r.currentMessages.length
  user : messages[r.currentMessages.length]? = some r.userMessage
  ai : ∃ m, messages[r.currentMessages.length + 1]? = some m ∧ m.id = r.aiMessage.id ∧
    m.isUser = false
  isUser : r.userMessage.isUser = true ∧ r.aiMessage.isUser = false

structure Inv (s : ChatList) : Prop where
  nodup : (s.messages.map (·.id)).Nodup
  used : ∀ m ∈ s.messages, m.id ∈ s.usedIds
  placed : ∀ r ∈ s.requests, Placed s.messages r

/-- Messages change in place, and users' messages do not change. -/
def Follows (old new : List Message) : Prop :=
  ∃ front added, new = front ++ added ∧
    List.Forall₂ (fun m m' => m'.id = m.id ∧ m'.isUser = m.isUser ∧ (m.isUser = true → m' = m)) old front

theorem Kept.follows (h : Kept s e t) : Follows s.messages t.messages := by
  obtain ⟨front, added, hsplit, hall⟩ := h
  refine ⟨front, added, hsplit, hall.imp fun m m' hchange => ?_⟩
  rcases hchange with rfl | hchange
  · exact ⟨rfl, rfl, fun _ => rfl⟩
  · have hupdated : Updated m m' := by
      cases e with
      | online i update => exact hchange.1
      | queueResponse response => exact hchange.1
      | voiceUpdate owner text isComplete => exact hchange.1
      | stop voice =>
        obtain ⟨hai, rfl⟩ := hchange
        exact ⟨hai, hai, rfl⟩
      | send text userId aiId online => exact hchange.elim
      | jobEnds i => exact hchange.elim
      | transcription text isFinal userId aiId => exact hchange.elim
    obtain ⟨hold, hnew, hid⟩ := hupdated
    exact ⟨hid, hnew.trans hold.symm, fun huser => Bool.noConfusion (hold.symm.trans huser)⟩

theorem Follows.getElem? {old new : List Message} (h : Follows old new) {i : Nat} {m : Message}
    (hm : old[i]? = some m) : ∃ m', new[i]? = some m' ∧ m'.id = m.id ∧ m'.isUser = m.isUser ∧
      (m.isUser = true → m' = m) := by
  obtain ⟨front, added, rfl, hall⟩ := h
  obtain ⟨hi, rfl⟩ := List.getElem?_eq_some_iff.mp hm
  have hlen := hall.length_eq
  have hfront : i < front.length := hlen ▸ hi
  refine ⟨front[i], ?_, ?_⟩
  · rw [List.getElem?_append_left hfront, List.getElem?_eq_getElem hfront]
  · exact List.Forall₂.get hall hi hfront

theorem Follows.ids {old new : List Message} (h : Follows old new) :
    old.map (·.id) <+: new.map (·.id) := by
  obtain ⟨front, added, rfl, hall⟩ := h
  have hsame : front.map (·.id) = old.map (·.id) := by
    induction hall with
    | nil => rfl
    | cons hm _ ih => rw [List.map_cons, List.map_cons, hm.1, ih]
  rw [List.map_append, hsame]
  exact List.prefix_append _ _

theorem Placed.length {messages : List Message} (h : Placed messages r) :
    r.currentMessages.length + 2 ≤ messages.length := by
  obtain ⟨m, hm, -⟩ := h.ai
  exact (List.getElem?_eq_some_iff.mp hm).1

theorem Placed.follows {old new : List Message} (h : Placed old r) (hf : Follows old new) :
    Placed new r where
  before := by
    have hlen := h.length
    obtain ⟨added, hids⟩ := hf.ids
    rw [← hids, List.take_append_of_le_length (by rw [List.length_map]; omega)]
    exact h.before
  user := by
    obtain ⟨m, hm, -, -, hsame⟩ := hf.getElem? h.user
    rw [hm, hsame h.isUser.1]
  ai := by
    obtain ⟨m, hm, hid, hai⟩ := h.ai
    obtain ⟨m', hm', hid', hai', -⟩ := hf.getElem? hm
    exact ⟨m', hm', hid'.trans hid, hai'.trans hai⟩
  isUser := h.isUser

/-- With nothing added and nothing changed before it the list is that of the request, up to its AI
message. -/
theorem Placed.eq_of_dropLast {messages : List Message} (h : Placed messages r)
    (hsame : messages.dropLast = r.currentMessages ++ [r.userMessage]) :
    ∃ m, messages = r.currentMessages ++ [r.userMessage, m] ∧ m.id = r.aiMessage.id ∧
      m.isUser = false := by
  obtain ⟨m, hm, hid, hai⟩ := h.ai
  have hlen := h.length
  have hcount := congrArg List.length hsame
  rw [List.length_dropLast, List.length_append, List.length_singleton] at hcount
  have hne : messages ≠ [] := List.ne_nil_of_length_pos (by omega)
  have hlast : messages.getLast hne = m := by
    rw [List.getElem?_eq_some_iff] at hm
    obtain ⟨hi, rfl⟩ := hm
    rw [List.getLast_eq_getElem]
    congr 1
  refine ⟨m, ?_, hid, hai⟩
  rw [← List.dropLast_append_getLast hne, hsame, hlast, List.append_assoc]
  rfl

/-- The messages of a rebuilt list. -/
theorem rebuild_eq {messages : List Message} (h : r.rebuild update = some messages) :
    ∃ m, messages = r.currentMessages ++ [r.userMessage, m] ∧ m.id = r.aiMessage.id ∧
      m.isUser = r.aiMessage.isUser := by
  cases update with
  | streamed text => cases h; exact ⟨_, rfl, rfl, rfl⟩
  | completed text => cases h; exact ⟨_, rfl, rfl, rfl⟩
  | errorResponse => cases h
  | failed message => cases h; exact ⟨_, rfl, rfl, rfl⟩
  | cancelled => cases h; exact ⟨_, rfl, rfl, rfl⟩

theorem changes_refl (s : ChatList) (e : Event) (messages : List Message) :
    List.Forall₂ (s.Changes e) messages messages :=
  List.forall₂_same.mpr fun _ _ => .inl rfl

theorem kept_of_append {added : List Message} (h : t.messages = s.messages ++ added) : Kept s e t :=
  ⟨s.messages, added, h, changes_refl s e _⟩

theorem kept_map_iff {change : Message → Message} (h : t.messages = s.messages.map change) :
    Kept s e t ↔ ∀ m ∈ s.messages, s.Changes e m (change m) := by
  have heach : List.Forall₂ (s.Changes e) s.messages (s.messages.map change) ↔
      ∀ m ∈ s.messages, s.Changes e m (change m) := by
    rw [List.forall₂_map_right_iff, List.forall₂_same]
  rw [← heach]
  constructor
  · rintro ⟨front, added, hsplit, hall⟩
    have hlen := hall.length_eq
    have hcount := congrArg List.length (h.symm.trans hsplit)
    rw [List.length_map, List.length_append] at hcount
    have hnone : added = [] := List.length_eq_zero_iff.mp (by omega)
    rwa [← h, hsplit, hnone, List.append_nil]
  · intro hall
    exact ⟨s.messages.map change, [], by rw [h, List.append_nil], hall⟩

/-- An update of an online request keeps the messages exactly when the list is still the one that the
request was sent with. -/
theorem kept_rebuild_iff {i : Nat} {messages : List Message} (h : Inv s)
    (hr : s.requests[i]? = some r) (hrebuild : r.rebuild update = some messages)
    (ht : t.messages = messages) :
    Kept s (.online i update) t ↔ s.messages.dropLast = r.currentMessages ++ [r.userMessage] := by
  have hplaced := h.placed r (List.mem_of_getElem? hr)
  obtain ⟨m', rfl, hid', hai'⟩ := rebuild_eq hrebuild
  constructor
  · rintro ⟨front, added, hsplit, hall⟩
    have hlen := hall.length_eq
    have hcount := congrArg List.length (ht.symm.trans hsplit)
    have hlong := hplaced.length
    rw [List.length_append, List.length_append] at hcount
    simp only [List.length_cons, List.length_nil] at hcount
    have hnone : added = [] := List.length_eq_zero_iff.mp (by omega)
    rw [hnone, List.append_nil, ht] at hsplit
    obtain ⟨m, hm, hid, -⟩ := hplaced.ai
    obtain ⟨hlast, rfl⟩ := List.getElem?_eq_some_iff.mp hm
    refine List.ext_getElem (by simp; omega) fun k hk hk' => ?_
    rw [List.length_dropLast] at hk
    have hks : k < s.messages.length := by omega
    have hkf : k < front.length := hlen ▸ hks
    have hfront : front[k] = (r.currentMessages ++ [r.userMessage])[k] := by
      simp only [← hsplit]
      rw [List.getElem_of_eq (List.append_cons _ r.userMessage [m']), List.getElem_append_left hk']
    rw [List.getElem_dropLast, ← hfront]
    rcases List.Forall₂.get hall hks hkf with hsame | ⟨-, r', hr', hown⟩
    · exact hsame.symm
    · -- only the last message carries the id of the request
      cases Option.some.inj (hr.symm.trans hr')
      have hids : (s.messages.map (·.id))[k]? = (s.messages.map (·.id))[r.currentMessages.length + 1]? := by
        rw [List.getElem?_map, List.getElem?_map, List.getElem?_eq_getElem hks, hm, Option.map_some,
          Option.map_some, hid]
        exact congrArg some hown
      have hsame := (List.getElem?_inj (by rwa [List.length_map]) h.nodup).mp hids
      omega
  · intro hsame
    obtain ⟨m, hmessages, hid, hai⟩ := hplaced.eq_of_dropLast hsame
    refine ⟨r.currentMessages ++ [r.userMessage, m'], [], by rw [ht, List.append_nil], ?_⟩
    rw [hmessages]
    have hlast : s.Changes (.online i update) m m' :=
      .inr ⟨⟨hai, hai'.trans hplaced.isUser.2, hid'.trans hid.symm⟩, r, hr, hid⟩
    refine List.rel_append (changes_refl s _ _) ?_
    exact .cons (.inl rfl) (.cons hlast .nil)

@[simp] theorem settle_messages (s : ChatList) : s.settle.messages = s.messages := by
  unfold settle
  split <;> rfl

theorem onlineUpdate_messages (s : ChatList) (i : Nat) (r : OnlineRequest) (update : OnlineUpdate) :
    (s.onlineUpdate i r update).messages =
      if r.isActive then (r.rebuild update).getD s.messages else s.messages := by
  unfold onlineUpdate
  cases r.isActive with
  | true => cases update <;> rfl
  | false => rfl

theorem queueResponse_messages (s : ChatList) (response : InferenceQueue.Response) :
    ∃ change : Message → Message, (∀ m, (change m).id = m.id ∧ (change m).isUser = m.isUser) ∧
      (s.queueResponse response).messages =
        s.messages.map fun m => if m.id = response.requestId then change m else m := by
  have hsame : s.messages = s.messages.map fun m => if m.id = response.requestId then m else m := by
    simp only [ite_self, List.map_id']
  unfold queueResponse
  cases response.error with
  | some error =>
    exact ⟨fun m => { m with content := "Error: ".toList ++ error, isStreaming := false },
      fun m => ⟨rfl, rfl⟩, settle_messages _⟩
  | none =>
    cases response.isComplete with
    | true =>
      exact ⟨fun m => { m with content := filterAiResponse m.content, isStreaming := false },
        fun m => ⟨rfl, rfl⟩, settle_messages _⟩
    | false =>
      cases response.token with
      | none => exact ⟨id, fun m => ⟨rfl, rfl⟩, hsame⟩
      | some token =>
        cases hfiltered : filterStreamingTokenForDisplay s.tokenFilter token with
        | mk shown f =>
          cases shown with
          | none => exact ⟨id, fun m => ⟨rfl, rfl⟩, by simp [hfiltered]⟩
          | some filteredToken =>
            refine ⟨fun m => { m with content := m.content ++ filteredToken }, fun m => ⟨rfl, rfl⟩, ?_⟩
            simp only [hfiltered, Bool.false_eq_true, if_false]
            rfl

theorem kept_queueResponse {response : InferenceQueue.Response}
    (hstep : step s (.queueResponse response) = some t) : Kept s (.queueResponse response) t := by
  simp only [step] at hstep
  split at hstep
  · rename_i howner
    obtain ⟨change, hchange, hmap⟩ := queueResponse_messages s response
    cases hstep
    refine (kept_map_iff hmap).mpr fun m hm => ?_
    split
    · rename_i hid
      have hai : m.isUser = false := by
        have huser := List.all_eq_true.mp howner m hm
        simpa [hid] using huser
      exact .inr ⟨⟨hai, (hchange m).2.trans hai, (hchange m).1⟩, hid⟩
    · exact .inl rfl
  · cases hstep

/-- What Stop does to a message. -/
def halted (m : Message) : Message :=
  if !m.isUser && m.isStreaming then { m with isStreaming := false } else m

theorem halted_changes (s : ChatList) (voice : Bool) (m : Message) :
    s.Changes (.stop voice) m (halted m) := by
  unfold halted
  split
  · rename_i hai
    exact .inr ⟨by simpa using (Bool.and_eq_true_iff.mp hai).1, rfl⟩
  · exact .inl rfl

theorem halted_halted (m : Message) : halted (halted m) = halted m := by
  by_cases hai : (!m.isUser && m.isStreaming) = true
  · have honce : halted m = { m with isStreaming := false } := if_pos hai
    rw [honce]
    exact if_neg (by simp)
  · have honce : halted m = m := if_neg hai
    rw [honce, honce]

theorem stop_messages (s : ChatList) (voice : Bool) :
    (s.stop voice).messages = s.messages ∨ (s.stop voice).messages = s.messages.map halted := by
  have htwice : (s.messages.map halted).map halted = s.messages.map halted := by
    rw [List.map_map]
    exact List.map_congr_left fun m _ => halted_halted m
  unfold stop
  cases s.isGenerating with
  | true =>
    cases voice with
    | true => exact .inr htwice
    | false => exact .inr rfl
  | false =>
    cases voice with
    | true => exact .inr rfl
    | false => exact .inl rfl

theorem kept_stop {voice : Bool} (hstep : step s (.stop voice) = some t) : Kept s (.stop voice) t := by
  cases hstep
  rcases stop_messages s voice with hsame | hhalted
  · exact kept_of_append (hsame.trans (List.append_nil _).symm)
  · exact (kept_map_iff hhalted).mpr fun m _ => halted_changes s voice m

theorem kept_voiceUpdate_iff {owner text : Text} {isComplete : Bool}
    (hstep : step s (.voiceUpdate owner text isComplete) = some t) :
    Kept s (.voiceUpdate owner text isComplete) t ↔ s.UpToDate (.voiceUpdate owner text isComplete) := by
  simp only [step] at hstep
  split at hstep
  · cases hstep
    rw [kept_map_iff rfl]
    refine forall₂_congr fun m hm => ?_
    split
    · rename_i hai
      rw [Bool.and_eq_true, Bool.not_eq_true'] at hai
      constructor
      · rintro (hsame | ⟨-, hid⟩) - -
        · have hcontent := congrArg Message.content hsame
          have hstreaming := congrArg Message.isStreaming hsame
          refine .inr ⟨hcontent.symm, ?_⟩
          simpa [hai.2] using hstreaming
        · exact .inl hid
      · intro h
        rcases h hai.1 hai.2 with hid | ⟨hcontent, rfl⟩
        · exact .inr ⟨⟨hai.1, hai.1, rfl⟩, hid⟩
        · left
          rw [← hcontent]
          cases m
          cases hai.2
          rfl
    · rename_i hnot
      refine iff_of_true (.inl rfl) fun hai hstreaming => ?_
      exact absurd (by simp [hai, hstreaming]) hnot
  · cases hstep

theorem kept_online_iff {i : Nat} (h : Inv s) (hstep : step s (.online i update) = some t) :
    Kept s (.online i update) t ↔ s.UpToDate (.online i update) := by
  obtain ⟨r, hr, hstep⟩ := Option.bind_eq_some_iff.mp hstep
  split at hstep
  · cases hstep
    have hmessages := onlineUpdate_messages s i r update
    have hquiet : (s.onlineUpdate i r update).messages = s.messages →
        Kept s (.online i update) (s.onlineUpdate i r update) :=
      fun hsame => kept_of_append (hsame.trans (List.append_nil _).symm)
    cases hactive : r.isActive with
    | false =>
      rw [hactive] at hmessages
      refine iff_of_true (hquiet hmessages) fun r' hr' hactive' => ?_
      cases Option.some.inj (hr.symm.trans hr')
      cases hactive.symm.trans hactive'
    | true =>
      rw [hactive, if_pos rfl] at hmessages
      cases hrebuild : r.rebuild update with
      | none =>
        rw [hrebuild] at hmessages
        refine iff_of_true (hquiet hmessages) fun r' _ _ hshown => ?_
        cases update with
        | errorResponse => exact absurd rfl hshown
        | streamed text => cases hrebuild
        | completed text => cases hrebuild
        | failed message => cases hrebuild
        | cancelled => cases hrebuild
      | some messages =>
        rw [hrebuild] at hmessages
        rw [kept_rebuild_iff h hr hrebuild hmessages]
        constructor
        · intro hsame r' hr' _ _
          cases Option.some.inj (hr.symm.trans hr')
          exact hsame
        · intro hup
          refine hup r hr hactive fun herror => ?_
          rw [herror] at hrebuild
          cases hrebuild
  · cases hstep

/-- What the request captured when it was sent. -/
def Captured (r r' : OnlineRequest) : Prop :=
  r.currentMessages = r'.currentMessages ∧ r.userMessage = r'.userMessage ∧ r.aiMessage = r'.aiMessage

theorem Placed.captured {messages : List Message} {r' : OnlineRequest} (h : Placed messages r)
    (hsame : Captured r' r) : Placed messages r' := by
  obtain ⟨hmessages, huser, hai⟩ := hsame
  exact ⟨by rw [hmessages]; exact h.before, by rw [hmessages, huser]; exact h.user,
    by rw [hmessages, hai]; exact h.ai, by rw [huser, hai]; exact h.isUser⟩

theorem captured_of_mem_set {i : Nat} {r' a : OnlineRequest} (hr : s.requests[i]? = some r)
    (hsame : Captured r' r) (ha : a ∈ s.requests.set i r') : ∃ b ∈ s.requests, Captured a b := by
  rcases List.mem_or_eq_of_mem_set ha with hold | rfl
  · exact ⟨a, hold, rfl, rfl, rfl⟩
  · exact ⟨r, List.mem_of_getElem? hr, hsame⟩

/-- The requests of the list hold what those before the step had captured. -/
def SameRequests (s t : ChatList) : Prop := ∀ r ∈ t.requests, ∃ r' ∈ s.requests, Captured r r'

theorem sameRequests_of_eq (h : t.requests = s.requests) : SameRequests s t :=
  fun r hr => ⟨r, h ▸ hr, rfl, rfl, rfl⟩

theorem onlineUpdate_requests {i : Nat} (hr : s.requests[i]? = some r) (update : OnlineUpdate) :
    SameRequests s (s.onlineUpdate i r update) := by
  intro a ha
  have hcases : a ∈ s.requests ∨ a ∈ s.requests.set i { r with collects := false } := by
    unfold onlineUpdate at ha
    cases hactive : r.isActive with
    | false =>
      rw [hactive] at ha
      exact .inr ha
    | true =>
      rw [hactive] at ha
      cases update with
      | streamed text => exact .inl ha
      | completed text => exact .inl ha
      | errorResponse => exact .inl ha
      | failed message => exact .inr ha
      | cancelled => exact .inr ha
  rcases hcases with hold | hset
  · exact ⟨a, hold, rfl, rfl, rfl⟩
  · have hsame : Captured { r with collects := false } r := ⟨rfl, rfl, rfl⟩
    exact captured_of_mem_set hr hsame hset

theorem onlineUpdate_usedIds (s : ChatList) (i : Nat) (r : OnlineRequest) (update : OnlineUpdate) :
    (s.onlineUpdate i r update).usedIds = s.usedIds := by
  unfold onlineUpdate
  cases r.isActive with
  | true => cases update <;> rfl
  | false => rfl

theorem Inv.keep (h : Inv s) (hf : Follows s.messages t.messages)
    (hlen : t.messages.length = s.messages.length) (hused : t.usedIds = s.usedIds)
    (hrequests : SameRequests s t) : Inv t := by
  have hids : s.messages.map (·.id) = t.messages.map (·.id) :=
    hf.ids.eq_of_length (by rw [List.length_map, List.length_map, hlen])
  constructor
  · rw [← hids]
    exact h.nodup
  · intro m hm
    have hid : m.id ∈ s.messages.map (·.id) := hids ▸ List.mem_map_of_mem hm
    obtain ⟨m', hm', hsame⟩ := List.mem_map.mp hid
    rw [hused, ← hsame]
    exact h.used m' hm'
  · intro r hr
    obtain ⟨r', hr', hsame⟩ := hrequests r hr
    exact ((h.placed r' hr').follows hf).captured hsame

theorem Inv.addTurn {text userId aiId : Text} (h : Inv s) (hfresh : s.fresh userId aiId = true) :
    Inv (s.addTurn text userId aiId) := by
  simp only [fresh, Bool.and_eq_true, Bool.not_eq_true', List.contains_eq_mem, decide_eq_false_iff_not,
    bne_iff_ne] at hfresh
  obtain ⟨⟨huser, hai⟩, hne⟩ := hfresh
  have hunused : ∀ id ∈ s.messages.map (·.id), id ∈ s.usedIds := by
    intro id hid
    obtain ⟨m, hm, rfl⟩ := List.mem_map.mp hid
    exact h.used m hm
  constructor
  · rw [ChatList.addTurn, List.map_append, List.nodup_append]
    refine ⟨h.nodup, by simpa using hne, fun a ha b hb => ?_⟩
    rintro rfl
    simp only [List.map_cons, List.map_nil, List.mem_cons, List.not_mem_nil, or_false] at hb
    rcases hb with rfl | rfl
    · exact huser (hunused _ ha)
    · exact hai (hunused _ ha)
  · intro m hm
    rcases List.mem_append.mp hm with hold | hnew
    · exact List.mem_append_left _ (h.used m hold)
    · refine List.mem_append_right _ ?_
      simp only [List.mem_cons, List.not_mem_nil, or_false] at hnew ⊢
      rcases hnew with rfl | rfl
      · exact .inl rfl
      · exact .inr rfl
  · intro r hr
    refine (h.placed r hr).follows ⟨s.messages, _, rfl, ?_⟩
    exact List.forall₂_same.mpr fun m _ => ⟨rfl, rfl, fun _ => rfl⟩

/-- A new request is placed at the end of the list. -/
theorem placed_sent (messages : List Message) (text userId aiId : Text) :
    Placed (messages ++ [⟨userId, text, true, false⟩, ⟨aiId, [], false, true⟩])
      ⟨messages, ⟨userId, text, true, false⟩, ⟨aiId, [], false, true⟩, true, true, false⟩ where
  before := by rw [List.map_append, ← List.length_map (f := (·.id)), List.take_left]
  user := by rw [List.getElem?_append_right (Nat.le_refl _), Nat.sub_self]; rfl
  ai := by
    refine ⟨⟨aiId, [], false, true⟩, ?_, rfl, rfl⟩
    simp
  isUser := ⟨rfl, rfl⟩

theorem kept_length (h : Kept s e t) : s.messages.length ≤ t.messages.length := by
  obtain ⟨front, added, hsplit, hall⟩ := h
  rw [hsplit, List.length_append, hall.length_eq]
  exact Nat.le_add_right _ _

@[simp] theorem settle_usedIds (s : ChatList) : s.settle.usedIds = s.usedIds := by
  unfold settle
  split <;> rfl

@[simp] theorem settle_requests (s : ChatList) : s.settle.requests = s.requests := by
  unfold settle
  split <;> rfl

theorem queueResponse_usedIds (s : ChatList) (response : InferenceQueue.Response) :
    (s.queueResponse response).usedIds = s.usedIds := by
  unfold queueResponse
  split
  · exact settle_usedIds _
  · split
    · exact settle_usedIds _
    · split
      · dsimp only
        split <;> rfl
      · rfl

theorem queueResponse_requests (s : ChatList) (response : InferenceQueue.Response) :
    (s.queueResponse response).requests = s.requests := by
  unfold queueResponse
  split
  · exact settle_requests _
  · split
    · exact settle_requests _
    · split
      · dsimp only
        split <;> rfl
      · rfl

theorem stop_usedIds (s : ChatList) (voice : Bool) : (s.stop voice).usedIds = s.usedIds := by
  unfold stop
  cases s.isGenerating <;> cases voice <;> rfl

theorem stop_requests (s : ChatList) (voice : Bool) : SameRequests s (s.stop voice) := by
  have hcases : (s.stop voice).requests = s.requests ∨ (s.stop voice).requests = s.cancelJob.requests := by
    unfold stop
    cases s.isGenerating with
    | true => exact .inr (by cases voice <;> rfl)
    | false => exact .inl (by cases voice <;> rfl)
  rcases hcases with hsame | hcancelled
  · exact sameRequests_of_eq hsame
  · intro r hr
    rw [hcancelled, cancelJob] at hr
    dsimp only at hr
    cases hjob : s.chatGenerationJob with
    | none =>
      rw [hjob] at hr
      exact ⟨r, hr, rfl, rfl, rfl⟩
    | some i =>
      rw [hjob] at hr
      obtain ⟨k, hk⟩ := List.mem_iff_getElem?.mp hr
      rw [List.getElem?_modify] at hk
      obtain ⟨r', hr', rfl⟩ := Option.map_eq_some_iff.mp hk
      refine ⟨r', List.mem_of_getElem? hr', ?_⟩
      split <;> exact ⟨rfl, rfl, rfl⟩

theorem inv_step (h : Inv s) (hk : Kept s e t) (hstep : step s e = some t) : Inv t := by
  have hf := hk.follows
  cases e with
  | send text userId aiId online =>
    simp only [step] at hstep
    split at hstep
    · rename_i hguard
      have hturn : Inv (s.addTurn text userId aiId) := h.addTurn (Bool.and_eq_true_iff.mp hguard).2
      cases hstep
      cases online with
      | false => exact hturn
      | true =>
        refine ⟨hturn.nodup, hturn.used, fun r hr => ?_⟩
        rcases List.mem_append.mp hr with hold | hnew
        · exact hturn.placed r hold
        · rw [List.mem_singleton.mp hnew]
          exact placed_sent s.messages text userId aiId
    · cases hstep
  | online i update =>
    obtain ⟨r, hr, hstep⟩ := Option.bind_eq_some_iff.mp hstep
    split at hstep
    · cases hstep
      refine h.keep hf ?_ (onlineUpdate_usedIds s i r update) (onlineUpdate_requests hr update)
      rw [onlineUpdate_messages]
      split
      · cases hrebuild : r.rebuild update with
        | none => rfl
        | some messages =>
          have hplaced := h.placed r (List.mem_of_getElem? hr)
          obtain ⟨m, rfl, -⟩ := rebuild_eq hrebuild
          have hlong := hplaced.length
          have hgrows := kept_length hk
          rw [onlineUpdate_messages, if_pos ‹_›, hrebuild] at hgrows
          simp only [Option.getD_some, List.length_append, List.length_cons, List.length_nil] at hgrows ⊢
          omega
      · rfl
    · cases hstep
  | jobEnds i =>
    obtain ⟨r, hr, hstep⟩ := Option.bind_eq_some_iff.mp hstep
    split at hstep
    · cases hstep
    · cases hstep
      have hsame : Captured { r with collects := false, hasEnded := true } r := ⟨rfl, rfl, rfl⟩
      exact h.keep hf rfl rfl fun a ha => captured_of_mem_set hr hsame ha
  | queueResponse response =>
    simp only [step] at hstep
    split at hstep
    · cases hstep
      obtain ⟨change, -, hmap⟩ := queueResponse_messages s response
      exact h.keep hf (by rw [hmap, List.length_map]) (queueResponse_usedIds s response)
        (sameRequests_of_eq (queueResponse_requests s response))
    · cases hstep
  | transcription text isFinal userId aiId =>
    simp only [step] at hstep
    split at hstep
    · split at hstep
      · rename_i hfresh
        have hturn : Inv (s.addTurn text userId aiId) := h.addTurn hfresh
        cases hstep
        exact ⟨hturn.nodup, hturn.used, hturn.placed⟩
      · cases hstep
    · cases hstep
      exact h
  | voiceUpdate owner text isComplete =>
    simp only [step] at hstep
    split at hstep
    · cases hstep
      exact h.keep hf (List.length_map _) rfl (sameRequests_of_eq rfl)
    · cases hstep
  | stop voice =>
    cases hstep
    refine h.keep hf ?_ (stop_usedIds s voice) (stop_requests s voice)
    rcases stop_messages s voice with hsame | hhalted
    · rw [hsame]
    · rw [hhalted, List.length_map]

/-- One step keeps the messages exactly when its update is up to date. -/
theorem kept_iff (h : Inv s) (hstep : step s e = some t) : Kept s e t ↔ s.UpToDate e := by
  cases e with
  | send text userId aiId online =>
    refine iff_of_true ?_ trivial
    simp only [step] at hstep
    split at hstep
    · cases hstep
      cases online <;> exact kept_of_append rfl
    · cases hstep
  | online i update => exact kept_online_iff h hstep
  | jobEnds i =>
    refine iff_of_true ?_ trivial
    obtain ⟨r, hr, hstep⟩ := Option.bind_eq_some_iff.mp hstep
    split at hstep
    · cases hstep
    · cases hstep
      exact kept_of_append (List.append_nil _).symm
  | queueResponse response => exact iff_of_true (kept_queueResponse hstep) trivial
  | transcription text isFinal userId aiId =>
    refine iff_of_true ?_ trivial
    simp only [step] at hstep
    split at hstep
    · split at hstep
      · cases hstep
        exact kept_of_append rfl
      · cases hstep
    · cases hstep
      exact kept_of_append (List.append_nil _).symm
  | voiceUpdate owner text isComplete => exact kept_voiceUpdate_iff hstep
  | stop voice => exact iff_of_true (kept_stop hstep) trivial

theorem start_inv : Inv start where
  nodup := List.nodup_nil
  used _ hm := nomatch hm
  placed _ hr := nomatch hr

/-- The chat list loses nothing in exactly the runs in which every update of an online request finds the
list that the request was sent with, and every voice update only its own AI message streaming. -/
theorem loses_nothing_iff {es : List Event} (hrun : Machine.run step start es = some s) :
    Machine.Meets step (fun s e => ∀ t, step s e = some t → Kept s e t) start es ↔
      Machine.Meets step UpToDate start es := by
  refine Machine.meets_iff_meets (fun s e t h hup hstep => ?_) (fun s e t h hstep => ?_) start_inv hrun
  · exact inv_step h ((kept_iff h hstep).mpr hup) hstep
  · rw [← kept_iff h hstep]
    exact ⟨fun hall => hall t hstep, fun hk u hu => Option.some.inj (hstep.symm.trans hu) ▸ hk⟩

instance decidableUpToDate (s : ChatList) : ∀ e, Decidable (s.UpToDate e)
  | .online i update =>
    match h : s.requests[i]? with
    | none => isTrue fun _ hr => by rw [h] at hr; cases hr
    | some r =>
      decidable_of_iff (r.isActive = true → update ≠ .errorResponse →
          s.messages.dropLast = r.currentMessages ++ [r.userMessage])
        ⟨fun hup r' hr' => by rw [h] at hr'; cases hr'; exact hup,
          fun hup => hup r (by rw [h]; rfl)⟩
  | .voiceUpdate owner text isComplete =>
    inferInstanceAs (Decidable (∀ msg ∈ s.messages, msg.isUser = false → msg.isStreaming = true →
      msg.id = owner ∨ msg.content = filterAiResponse text ∧ isComplete = false))
  | .send .. | .jobEnds _ | .queueResponse _ | .transcription .. | .stop _ => isTrue trivial

/-- A question answered online and one asked by voice. -/
def answeredTurns : List Event :=
  [.send ['h'] "u1".toList "a1".toList true, .online 0 (.streamed ['y']),
    .online 0 (.completed "yo".toList), .jobEnds 0, .transcription ['b'] true "u2".toList "a2".toList,
    .voiceUpdate "a2".toList "ok".toList false, .voiceUpdate "a2".toList "ok".toList true]

theorem loses_nothing_answered :
    Machine.Meets step (fun s e => ∀ t, step s e = some t → Kept s e t) start answeredTurns := by
  have hrun : (Machine.run step start answeredTurns).isSome = true := by decide +kernel
  obtain ⟨s, hs⟩ := Option.isSome_iff_exists.mp hrun
  exact (loses_nothing_iff hs).mpr (by decide +kernel)

/-- Stop cancels the first request, and the end of its job forgets the job of the second one: its Stop
comes too late, and the next update of the second request drops the third question. -/
def forgottenJob : List Event :=
  [.send ['h'] "u1".toList "a1".toList true, .stop false, .send ['i'] "u2".toList "a2".toList true,
    .jobEnds 0, .stop false, .send ['j'] "u3".toList "a3".toList true, .online 1 (.streamed ['k'])]

theorem third_question_lost : (Machine.run step start forgottenJob).isSome = true ∧
    ¬ Machine.Meets step (fun s e => ∀ t, step s e = some t → Kept s e t) start forgottenJob := by
  refine ⟨by decide +kernel, fun hkept => ?_⟩
  have hgrows : Machine.Meets step
      (fun s e => (step s e).all (fun t => s.messages.length ≤ t.messages.length) = true)
      start forgottenJob :=
    hkept.mono fun s e h => by
      cases hstep : step s e with
      | none => rfl
      | some t => exact decide_eq_true (kept_length (h t hstep))
  exact absurd hgrows (by decide +kernel)

end ChatList

end HeyNilo
