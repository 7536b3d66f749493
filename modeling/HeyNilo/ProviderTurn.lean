import HeyNilo.KotlinText

namespace HeyNilo

/-- The part of `LLMResponse` that a voice turn reads. -/
structure LLMResponse where
  text : Text := []
  isComplete : Bool := false
  isStreaming : Bool := false
  error : Option Text := none
deriving DecidableEq, Repr

def LLMResponse.isError (r : LLMResponse) : Bool := r.error.isSome

/-- The text state of `processWithLLMProvider` and what it reports. -/
structure ProviderTurn where
  fullResponseText : Text
  finalBubbleText : Text
  isLLMResponseComplete : Bool
  isFirstToken : Bool
  /-- The calls of `onResponseUpdate`. -/
  responseUpdates : List (Text × Bool)
  /-- The calls of `onError`. -/
  errors : List Text
  /-- The assistant messages given to `saveConversationExchange`. -/
  savedTexts : List Text
  /-- Launched saves that have not read `finalBubbleText` yet. -/
  pendingSaves : Nat
deriving DecidableEq, Repr

def removeImEndTokenOnly (text : Text) : Text :=
  let result := replaceText "<|im_end|>".toList [] text
  let result := replaceText "|im_end|>".toList [] result
  let result := replaceText "|im_end|".toList [] result
  replaceText "im_end|".toList [] result

def removePrefix (pre text : Text) : Text :=
  if pre.isPrefixOf text then text.drop pre.length else text

/-- The new part of a cumulative text. -/
def newToken (full newText : Text) : Text :=
  if full.length < newText.length && full.isPrefixOf newText then newText.drop full.length
  else if full.length < newText.length then removePrefix full newText
  else []

namespace ProviderTurn

/-- The hard reset at the start of a turn. -/
def start : ProviderTurn where
  fullResponseText := []
  finalBubbleText := []
  isLLMResponseComplete := false
  isFirstToken := true
  responseUpdates := []
  errors := []
  savedTexts := []
  pendingSaves := 0

/-- What `restartListening` does to the texts; it returns at once (`restarts` is false) unless the
pipeline is running and no other restart is under way. -/
def restartListening (restarts : Bool) (s : ProviderTurn) : ProviderTurn :=
  if restarts then { s with fullResponseText := [], isLLMResponseComplete := false } else s

/-- The final text is set, a blank one restarts listening, and the text is delivered. -/
def deliverFinal (restarts : Bool) (s : ProviderTurn) : ProviderTurn :=
  let final := removeImEndTokenOnly s.fullResponseText
  let s := { s with
    isLLMResponseComplete := true
    finalBubbleText := final
    responseUpdates := s.responseUpdates ++ [(final, true)] }
  if isBlank final then s.restartListening restarts else s

/-- One response of the stream. -/
def collect (restarts : Bool) (s : ProviderTurn) (r : LLMResponse) : ProviderTurn :=
  if r.isStreaming && s.isFirstToken then { s with isFirstToken := false }
  else if r.isError then
    { s with errors := s.errors ++ [r.error.getD "Unknown error".toList] }
  else if r.isComplete then
    let s := s.deliverFinal restarts
    { s with pendingSaves := s.pendingSaves + 1 }
  else if r.isStreaming then
    let full := s.fullResponseText ++ newToken s.fullResponseText r.text
    { s with
      fullResponseText := full
      finalBubbleText := removeImEndTokenOnly full
      responseUpdates := s.responseUpdates ++ [(removeImEndTokenOnly full, false)] }
  else s

/-- The launched saves read `finalBubbleText`. -/
def runSaves (s : ProviderTurn) : ProviderTurn :=
  { s with
    savedTexts := s.savedTexts ++ List.replicate s.pendingSaves s.finalBubbleText
    pendingSaves := 0 }

/-- After the stream: the safety net for a turn that is not marked complete. -/
def safetyNet (restarts : Bool) (s : ProviderTurn) : ProviderTurn :=
  if s.isLLMResponseComplete then s else s.deliverFinal restarts

/-- A whole turn. The saves run on another thread, before the safety net or after it. -/
def processWithLLMProvider (restarts restartsLater savesLate : Bool)
    (responses : List LLMResponse) : ProviderTurn :=
  let s := responses.foldl (collect restarts) start
  let s := if savesLate then s else s.runSaves
  (s.safetyNet restartsLater).runSaves

/-- What the turn delivered and saved as final is the cleaned terminal text. -/
def DeliversReply (terminal : Text) (s : ProviderTurn) : Prop :=
  s.finalBubbleText = removeImEndTokenOnly terminal ∧
    (∃ u ∈ s.responseUpdates, u.2 = true) ∧
    (∀ u ∈ s.responseUpdates, u.2 = true → u.1 = removeImEndTokenOnly terminal) ∧
    s.savedTexts = [removeImEndTokenOnly terminal]

end ProviderTurn

def LLMResponse.streaming (text : Text) : LLMResponse := { text := text, isStreaming := true }

def LLMResponse.completed (text : Text) : LLMResponse := { text := text, isComplete := true }

namespace ProviderTurn

/-- A turn whose terminal response is still to come, with `full` as the text so far. -/
structure Collected (full : Text) (s : ProviderTurn) : Prop where
  text : s.fullResponseText = full
  incomplete : s.isLLMResponseComplete = false
  updates : ∀ u ∈ s.responseUpdates, u.2 = false
  saved : s.savedTexts = []
  pending : s.pendingSaves = 0

theorem append_newToken {full text : Text} (h : full <+: text) :
    full ++ newToken full text = text := by
  obtain ⟨rest, rfl⟩ := h
  cases rest with
  | nil => simp [newToken]
  | cons c rest => simp [newToken]

/-- A streaming response after the first adds what is new in its text. -/
theorem Collected.stream {full : Text} {s : ProviderTurn} (restarts : Bool)
    (h : Collected full s) (hfirst : s.isFirstToken = false) (text : Text) :
    Collected (full ++ newToken full text) (s.collect restarts (.streaming text)) ∧
      (s.collect restarts (.streaming text)).isFirstToken = false := by
  have hcollect : s.collect restarts (.streaming text) =
      { s with
        fullResponseText := full ++ newToken full text
        finalBubbleText := removeImEndTokenOnly (full ++ newToken full text)
        responseUpdates :=
          s.responseUpdates ++ [(removeImEndTokenOnly (full ++ newToken full text), false)] } := by
    simp [ProviderTurn.collect, LLMResponse.streaming, LLMResponse.isError, hfirst, h.text]
  rw [hcollect]
  refine ⟨⟨rfl, h.incomplete, fun u hu => ?_, h.saved, h.pending⟩, hfirst⟩
  rcases List.mem_append.mp hu with hu | hu
  · exact h.updates u hu
  · rw [List.mem_singleton.mp hu]

/-- In a cumulative stream its text becomes the text so far. -/
theorem Collected.collect {full text : Text} {s : ProviderTurn} (restarts : Bool)
    (h : Collected full s) (hfirst : s.isFirstToken = false) (hpre : full <+: text) :
    Collected text (s.collect restarts (.streaming text)) ∧
      (s.collect restarts (.streaming text)).isFirstToken = false := by
  have hstream := h.stream restarts hfirst text
  rwa [append_newToken hpre] at hstream

theorem Collected.foldl {full : Text} {texts : List Text} {s : ProviderTurn} {restarts : Bool}
    (h : Collected full s) (hfirst : s.isFirstToken = false)
    (hc : (full :: texts).IsChain (· <+: ·)) :
    Collected ((full :: texts).getLast (List.cons_ne_nil _ _))
      ((texts.map LLMResponse.streaming).foldl (ProviderTurn.collect restarts) s) := by
  induction texts generalizing full s with
  | nil => exact h
  | cons text texts ih =>
    obtain ⟨hpre, hc⟩ := List.isChain_cons_cons.mp hc
    obtain ⟨hnext, hnextFirst⟩ := h.collect restarts hfirst hpre
    rw [List.getLast_cons (List.cons_ne_nil _ _)]
    exact ih hnext hnextFirst hc

/-- The text that the streaming responses leave: the first of them is swallowed. -/
def collectedText : List Text → Text
  | [] | [_] => []
  | _ :: text :: texts => (text :: texts).getLast (List.cons_ne_nil _ _)

theorem collected_start (texts : List Text) (restarts : Bool) (hc : texts.IsChain (· <+: ·)) :
    Collected (collectedText texts)
      ((texts.map LLMResponse.streaming).foldl (collect restarts) start) := by
  cases texts with
  | nil => constructor <;> simp [start, collectedText]
  | cons first texts =>
    have hstart : Collected [] (start.collect restarts (.streaming first)) := by
      constructor <;> simp [ProviderTurn.collect, start, LLMResponse.streaming]
    have hfirst : (start.collect restarts (.streaming first)).isFirstToken = false := by
      simp [ProviderTurn.collect, start, LLMResponse.streaming]
    cases texts with
    | nil => exact hstart
    | cons second texts =>
      have hc' : ([] :: second :: texts).IsChain (· <+: ·) :=
        List.isChain_cons_cons.mpr ⟨List.nil_prefix, (List.isChain_cons_cons.mp hc).2⟩
      exact hstart.foldl hfirst hc'

/-- The final deliveries of a turn are those made since the stream's last streaming response. -/
theorem deliversReply_of_updates {terminal : Text} {s : ProviderTurn} {old : List (Text × Bool)}
    {finals : List Text} (hold : ∀ u ∈ old, u.2 = false) (hne : finals ≠ [])
    (hupdates : s.responseUpdates = old ++ finals.map fun x => (x, true)) :
    DeliversReply terminal s ↔
      s.finalBubbleText = removeImEndTokenOnly terminal ∧
        (∀ x ∈ finals, x = removeImEndTokenOnly terminal) ∧
        s.savedTexts = [removeImEndTokenOnly terminal] := by
  have hfinal : (∃ u ∈ s.responseUpdates, u.2 = true) := by
    obtain ⟨x, hx⟩ := List.exists_mem_of_ne_nil finals hne
    refine ⟨(x, true), ?_, rfl⟩
    rw [hupdates]
    exact List.mem_append_right _ (List.mem_map_of_mem hx)
  have hall : (∀ u ∈ s.responseUpdates, u.2 = true → u.1 = removeImEndTokenOnly terminal) ↔
      ∀ x ∈ finals, x = removeImEndTokenOnly terminal := by
    rw [hupdates]
    constructor
    · intro h x hx
      exact h (x, true) (List.mem_append_right _ (List.mem_map_of_mem hx)) rfl
    · intro h u hu ht
      rcases List.mem_append.mp hu with hu | hu
      · rw [hold u hu] at ht
        cases ht
      · obtain ⟨x, hx, rfl⟩ := List.mem_map.mp hu
        exact h x hx
  simp only [DeliversReply, hfinal, hall, true_and]

theorem Collected.completed {full terminal : Text} {s : ProviderTurn} {restarts : Bool}
    (h : Collected full s) :
    s.collect restarts (.completed terminal) =
      { s with
        fullResponseText :=
          if isBlank (removeImEndTokenOnly full) && restarts then [] else full
        finalBubbleText := removeImEndTokenOnly full
        isLLMResponseComplete := !(isBlank (removeImEndTokenOnly full) && restarts)
        responseUpdates := s.responseUpdates ++ [(removeImEndTokenOnly full, true)]
        pendingSaves := 1 } := by
  simp only [ProviderTurn.collect, LLMResponse.completed, LLMResponse.isError, Option.isSome_none,
    Bool.false_and, Bool.false_eq_true, ↓reduceIte, deliverFinal, h.text, h.pending]
  cases isBlank (removeImEndTokenOnly full) <;> cases restarts <;>
    simp [restartListening]

/-- The end of a turn: its cleaned text is delivered, and an empty one after it where a blank text
restarted listening. -/
theorem Collected.deliversReply_iff {full : Text} {s : ProviderTurn} (h : Collected full s)
    (terminal : Text) (restarts restartsLater savesLate : Bool) :
    DeliversReply terminal
        (((if savesLate then s.collect restarts (.completed terminal)
          else (s.collect restarts (.completed terminal)).runSaves).safetyNet
            restartsLater).runSaves) ↔
      removeImEndTokenOnly full = removeImEndTokenOnly terminal ∧
        (isBlank (removeImEndTokenOnly full) = true → restarts = true →
          removeImEndTokenOnly terminal = []) := by
  rw [h.completed]
  by_cases hrestart : isBlank (removeImEndTokenOnly full) = true ∧ restarts = true
  · -- the restart cleared the text, and the safety net delivers it once more
    obtain ⟨hblank, hrestarts⟩ := hrestart
    have hnil : removeImEndTokenOnly [] = [] := rfl
    have hblankNil : isBlank [] = true := rfl
    rw [deliversReply_of_updates h.updates
      (List.cons_ne_nil (removeImEndTokenOnly full) [[]])
      (by cases savesLate <;> cases restartsLater <;>
        simp [safetyNet, runSaves, deliverFinal, restartListening, hblank, hrestarts, hnil,
          hblankNil])]
    constructor
    · intro ⟨_, hfinals, _⟩
      have hfull := hfinals _ (List.mem_cons_self)
      have hempty := hfinals [] (List.mem_cons_of_mem _ (List.mem_singleton.mpr rfl))
      exact ⟨hfull, fun _ _ => hempty.symm⟩
    · intro ⟨hfull, hempty⟩
      have hterminal := hempty hblank hrestarts
      rw [hterminal] at hfull
      cases savesLate <;> cases restartsLater <;>
        simp [safetyNet, runSaves, deliverFinal, restartListening, hrestarts, hnil, hblankNil,
          hfull, hterminal, h.saved]
  · have hkeep : (isBlank (removeImEndTokenOnly full) && restarts) = false := by
      simpa using hrestart
    rw [deliversReply_of_updates h.updates
      (List.cons_ne_nil (removeImEndTokenOnly full) [])
      (by cases savesLate <;> simp [safetyNet, runSaves, hkeep])]
    constructor
    · intro ⟨_, hfinals, _⟩
      have hfull := hfinals _ List.mem_cons_self
      exact ⟨hfull, fun hblank hrestarts => absurd ⟨hblank, hrestarts⟩ hrestart⟩
    · intro ⟨hfull, _⟩
      rw [hfull] at hkeep ⊢
      cases savesLate <;> simp [safetyNet, runSaves, hkeep, h.saved]

theorem collectedText_of_two {texts : List Text} (h : 2 ≤ texts.length) :
    ∃ hne, collectedText texts = texts.getLast hne := by
  rcases texts with _ | ⟨first, _ | ⟨second, texts⟩⟩
  · simp at h
  · simp at h
  · refine ⟨List.cons_ne_nil _ _, ?_⟩
    rw [List.getLast_cons (List.cons_ne_nil _ _), collectedText]

theorem collectedText_of_short {texts : List Text} (h : texts.length < 2) :
    collectedText texts = [] := by
  rcases texts with _ | ⟨first, _ | ⟨second, texts⟩⟩
  · rfl
  · rfl
  · simp only [List.length_cons] at h
    omega

/-- A turn over a cumulative stream delivers and saves the reply exactly when the cleaned reply is
empty, or at least two streaming responses came and no restart of listening follows a blank one. -/
theorem finalText_iff {texts : List Text} {terminal : Text}
    {restarts restartsLater savesLate : Bool} (hc : texts.IsChain (· <+: ·))
    (hlast : ∀ text, texts.getLast? = some text → terminal = text) :
    DeliversReply terminal (processWithLLMProvider restarts restartsLater savesLate
        (texts.map LLMResponse.streaming ++ [.completed terminal])) ↔
      removeImEndTokenOnly terminal = [] ∨
        (2 ≤ texts.length ∧ (isBlank (removeImEndTokenOnly terminal) = false ∨ restarts = false)) := by
  have hturn := (collected_start texts restarts hc).deliversReply_iff terminal restarts
    restartsLater savesLate
  rw [processWithLLMProvider, List.foldl_append, List.foldl_cons, List.foldl_nil, hturn]
  by_cases htwo : 2 ≤ texts.length
  · obtain ⟨hne, hfull⟩ := collectedText_of_two htwo
    have hterminal : terminal = texts.getLast hne := hlast _ (List.getLast?_eq_getLast_of_ne_nil hne)
    rw [hfull, ← hterminal]
    cases isBlank (removeImEndTokenOnly terminal) <;> cases restarts <;> simp [htwo]
  · have hnil : removeImEndTokenOnly [] = [] := rfl
    rw [collectedText_of_short (by omega), hnil]
    constructor
    · intro h
      exact Or.inl h.1.symm
    · rintro (hempty | ⟨hlen, _⟩)
      · exact ⟨hempty.symm, fun _ _ => hempty⟩
      · exact absurd hlen htwo

theorem finalText_iff_two_responses :
    DeliversReply "Hi there".toList (processWithLLMProvider true true false
        (["Hi".toList, "Hi there".toList].map LLMResponse.streaming ++
          [.completed "Hi there".toList])) :=
  (finalText_iff (by decide) (by decide)).mpr (Or.inr ⟨by decide, Or.inl (by decide)⟩)

/-- A reply that comes as one streaming response and its completion is delivered as empty. -/
theorem single_response_delivers_empty :
    ¬ DeliversReply "Hi".toList (processWithLLMProvider true true false
        (["Hi".toList].map LLMResponse.streaming ++ [.completed "Hi".toList])) := by
  intro h
  have hbubble : (processWithLLMProvider true true false
      (["Hi".toList].map LLMResponse.streaming ++ [.completed "Hi".toList])).finalBubbleText = [] :=
    by decide
  have hreply := h.1
  rw [hbubble] at hreply
  exact absurd hreply (by decide)

end ProviderTurn

end HeyNilo
