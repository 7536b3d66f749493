import HeyNilo.OnlineProvider

namespace HeyNilo

/-- The data of an SSE field: one space after the colon does not belong to it. -/
def sseData : Text → Text
  | ' ' :: rest => rest
  | value => value

/-- A member that is a string or null, where it is there at all. -/
inductive Nullable where
  | missing
  | null
  | str (s : Text)
deriving DecidableEq, Repr

def nullable (json : JSONObject) (name : Text) : Option Nullable :=
  match json.opt name with
  | none => some .missing
  | some .null => some .null
  | some (.str s) => some (.str s)
  | _ => none

/-- What a chat-completion chunk says in `choices[0]`. -/
structure ChatChunk where
  finishReason : Nullable
  content : Nullable
deriving DecidableEq, Repr

/-- The chunk in a JSON object, if it is one. A chunk may be without choices. -/
def chatChunk (json : JSONObject) : Option ChatChunk :=
  match json.opt "choices".toList with
  | some (.arr []) => some ⟨.missing, .missing⟩
  | some (.arr (.obj choice :: _)) =>
    match nullable choice "finish_reason".toList, JSONObject.opt choice "delta".toList with
    | some finishReason, none => some ⟨finishReason, .missing⟩
    | some finishReason, some (.obj delta) =>
      (nullable delta "content".toList).map fun content => ⟨finishReason, content⟩
    | _, _ => none
  | _ => none

/-- The text a chunk carries; a null content carries none. -/
def ChatChunk.text (chunk : ChatChunk) : Text :=
  match chunk.content with
  | .str s => s
  | _ => []

/-- The finish reason that ends the reading of a chunk. -/
def ChatChunk.finished (chunk : ChatChunk) : Bool :=
  match chunk.finishReason with
  | .str reason => reason ≠ "null".toList
  | _ => false

/-- The text the read loop takes from a chunk; `optString` turns a null content into a text. -/
def ChatChunk.decoded (chunk : ChatChunk) : Text :=
  if chunk.finished then []
  else
    match chunk.content with
    | .missing => []
    | .null => "null".toList
    | .str s => s

/-- A line before the [DONE] line: a `data:` field with its value and the chunk in it, or a line that
is no `data:` field. -/
inductive BodyItem where
  | chunk (value : Text) (chunk : ChatChunk)
  | other (text : Text)
deriving DecidableEq, Repr

def dataLine (value : Text) : Text := "data:".toList ++ value

namespace BodyItem

def line : BodyItem → Text
  | .chunk value _ => dataLine value
  | .other text => text

def text : BodyItem → Text
  | .chunk _ carried => carried.text
  | .other _ => []

def Valid (parse : Text → Option JSONObject) : BodyItem → Prop
  | .chunk value carried => (parse (sseData value)).bind chatChunk = some carried
  | .other text => ("data:".toList).isPrefixOf text = false

instance (parse : Text → Option JSONObject) : (item : BodyItem) → Decidable (item.Valid parse)
  | .chunk value carried =>
    inferInstanceAs (Decidable ((parse (sseData value)).bind chatChunk = some carried))
  | .other text => inferInstanceAs (Decidable (("data:".toList).isPrefixOf text = false))

/-- A space follows the colon. -/
def spaced (value : Text) : Bool := value.head? = some ' '

/-- The chunk has text, and the line has no space or the chunk a finish reason. -/
def lost : BodyItem → Bool
  | .chunk value carried => !carried.text.isEmpty && (!spaced value || carried.finished)
  | .other _ => false

/-- The chunk has a null content, its line a space, and it has no finish reason. -/
def madeUp : BodyItem → Bool
  | .chunk value carried => carried.content = .null && spaced value && !carried.finished
  | .other _ => false

/-- What the read loop adds to its text for this line. -/
def decoded : BodyItem → Text
  | .chunk value carried => if spaced value then carried.decoded else []
  | .other _ => []

end BodyItem

/-- The text of the first response that is complete. -/
def terminalText (responses : List LLMResponse) : Option Text :=
  (responses.find? (·.isComplete)).map (·.text)

/-- The body made of the items and a [DONE] line, and how it ends after that. -/
def sseBody (items : List BodyItem) (done : Text) (broken : Option (Option Text)) : ServerBody :=
  ⟨items.map (·.line) ++ [dataLine done], broken⟩

namespace OnlineLLMProvider

/-- The terminal response has the concatenated text of the chunks. -/
def Decoded (p : OnlineLLMProvider) (parse : Text → Option JSONObject) (items : List BodyItem)
    (done : Text) (broken : Option (Option Text)) : Prop :=
  terminalText (p.emitOpenAICompatibleStream parse (.ok (sseBody items done broken))).emitted =
    some (items.flatMap (·.text))

instance (p : OnlineLLMProvider) (parse : Text → Option JSONObject) (items : List BodyItem)
    (done : Text) (broken : Option (Option Text)) : Decidable (p.Decoded parse items done broken) :=
  inferInstanceAs (Decidable (_ = _))

/-- The [DONE] line has its space, and no chunk is passed over or made up. -/
def Clean (items : List BodyItem) (done : Text) : Prop :=
  BodyItem.spaced done = true ∧ ∀ item ∈ items, item.lost = false ∧ item.madeUp = false

end OnlineLLMProvider

open OnlineLLMProvider

theorem dataField_isPrefixOf (value : Text) :
    dataField.isPrefixOf (dataLine value) = BodyItem.spaced value := by
  have hsplit : dataField = "data:".toList ++ [' '] := by decide
  unfold dataLine
  rw [Bool.eq_iff_iff, List.isPrefixOf_iff_prefix, hsplit, List.prefix_append_right_inj]
  cases value with
  | nil => simp [BodyItem.spaced]
  | cons c rest => simp [BodyItem.spaced, eq_comm]

theorem drop_dataLine {value : Text} (h : BodyItem.spaced value = true) :
    (dataLine value).drop 6 = sseData value := by
  cases value with
  | nil => cases h
  | cons c rest =>
    have hc : c = ' ' := by simpa [BodyItem.spaced] using h
    subst hc
    rfl

theorem dataField_other {text : Text} (h : ("data:".toList).isPrefixOf text = false) :
    dataField.isPrefixOf text = false := by
  rw [← Bool.not_eq_true, List.isPrefixOf_iff_prefix] at h ⊢
  intro hprefix
  have hdata : "data:".toList <+: dataField := by decide
  exact h (hdata.trans hprefix)

theorem optString_nullable {json : JSONObject} {name : Text} {x : Nullable}
    (h : nullable json name = some x) (fallback : Option Text) :
    json.optString name fallback =
      match x with
      | .missing => fallback
      | .null => some "null".toList
      | .str s => some s := by
  unfold nullable at h
  unfold JSONObject.optString
  split at h
  next hopt => cases h; rw [hopt]
  next hopt => cases h; rw [hopt]; rfl
  next s hopt => cases h; rw [hopt]; rfl
  next => cases h

theorem has_nullable {json : JSONObject} {name : Text} {x : Nullable}
    (h : nullable json name = some x) : json.has name = decide (x ≠ .missing) := by
  unfold nullable at h
  unfold JSONObject.has
  split at h
  next hopt => cases h; rw [hopt]; rfl
  next hopt => cases h; rw [hopt]; rfl
  next s hopt => cases h; rw [hopt]; rfl
  next => cases h

theorem finished_eq {choice : JSONObject} {finishReason : Nullable}
    (h : nullable choice "finish_reason".toList = some finishReason) (content : Nullable) :
    ((choice.optString "finish_reason".toList none).isSome &&
        choice.optString "finish_reason".toList none ≠ some "null".toList) =
      (ChatChunk.mk finishReason content).finished := by
  rw [optString_nullable h none]
  cases finishReason with
  | missing => rfl
  | null => rfl
  | str reason => simp [ChatChunk.finished]

theorem chunkContent_eq {parse : Text → Option JSONObject} {data : Text} {chunk : ChatChunk}
    (h : (parse data).bind chatChunk = some chunk) : chunkContent parse data = chunk.decoded := by
  obtain ⟨json, hparse, hchunk⟩ := Option.bind_eq_some_iff.mp h
  unfold chatChunk at hchunk
  unfold chunkContent
  rw [hparse, Option.bind_some]
  unfold JSONObject.getJSONArray
  split at hchunk
  next hchoices =>
    cases hchunk
    rw [hchoices]
    rfl
  next choice choices hchoices =>
    rw [hchoices]
    show choiceContent choice = chunk.decoded
    unfold choiceContent ChatChunk.decoded
    split at hchunk
    next finishReason hfinish hdelta =>
      cases hchunk
      dsimp only
      rw [finished_eq hfinish .missing]
      simp only [JSONObject.optJSONObject, hdelta]
    next finishReason delta hfinish hdelta =>
      obtain ⟨content, hcontent, rfl⟩ := Option.map_eq_some_iff.mp hchunk
      dsimp only
      rw [finished_eq hfinish content]
      simp only [JSONObject.optJSONObject, hdelta]
      rw [has_nullable hcontent, optString_nullable hcontent]
      cases content <;> rfl
    next => cases hchunk
  next => cases hchunk

theorem terminalText_emit_streaming (text : Text) (rest : Emissions) :
    terminalText (rest.emit (.streaming text)).emitted = terminalText rest.emitted := rfl

variable {parse : Text → Option JSONObject} {broken : Option (Option Text)}

theorem terminalText_item (hdone : parse "[DONE]".toList = none) {item : BodyItem}
    (hitem : item.Valid parse) (fullResponse : Text) (lines : List Text) :
    terminalText (openAILoop parse broken fullResponse (item.line :: lines)).emitted =
      terminalText (openAILoop parse broken (fullResponse ++ item.decoded) lines).emitted := by
  cases item with
  | other text =>
    rw [openAILoop, BodyItem.line, dataField_other hitem]
    simp [BodyItem.decoded]
  | chunk value carried =>
    rw [openAILoop, BodyItem.line, dataField_isPrefixOf]
    cases hspaced : BodyItem.spaced value with
    | false => simp [BodyItem.decoded, hspaced]
    | true =>
      have hchunk : (parse (sseData value)).bind chatChunk = some carried := hitem
      have hdata : sseData value ≠ "[DONE]".toList := by
        intro h
        rw [h, hdone] at hchunk
        cases hchunk
      simp only [if_true, drop_dataLine hspaced, if_neg hdata, chunkContent_eq hchunk,
        BodyItem.decoded, hspaced]
      split
      next hempty => rw [List.isEmpty_iff.mp hempty, List.append_nil]
      next => rw [terminalText_emit_streaming]

theorem terminalText_items (hdone : parse "[DONE]".toList = none) {items : List BodyItem}
    (hitems : ∀ item ∈ items, item.Valid parse) (fullResponse : Text) (lines : List Text) :
    terminalText (openAILoop parse broken fullResponse (items.map (·.line) ++ lines)).emitted =
      terminalText
        (openAILoop parse broken (fullResponse ++ items.flatMap (·.decoded)) lines).emitted := by
  induction items generalizing fullResponse with
  | nil => simp
  | cons item items ih =>
    obtain ⟨hitem, hitems⟩ := List.forall_mem_cons.mp hitems
    rw [List.map_cons, List.cons_append, terminalText_item hdone hitem, ih hitems,
      List.flatMap_cons, List.append_assoc]

/-- Only a [DONE] line with its space ends the stream. -/
theorem terminalText_done {done : Text} (h : sseData done = "[DONE]".toList) (fullResponse : Text) :
    terminalText (openAILoop parse broken fullResponse [dataLine done]).emitted =
      if BodyItem.spaced done then some fullResponse else none := by
  rw [openAILoop, dataField_isPrefixOf]
  cases hspaced : BodyItem.spaced done with
  | false => rfl
  | true =>
    simp only [if_true, drop_dataLine hspaced, if_pos h]
    rfl

theorem decoded_iff (hdone : parse "[DONE]".toList = none) (p : OnlineLLMProvider)
    {items : List BodyItem} (hitems : ∀ item ∈ items, item.Valid parse) {done : Text}
    (h : sseData done = "[DONE]".toList) :
    p.Decoded parse items done broken ↔
      BodyItem.spaced done = true ∧ items.flatMap (·.decoded) = items.flatMap (·.text) := by
  unfold Decoded sseBody emitOpenAICompatibleStream
  dsimp only
  rw [terminalText_items hdone hitems, terminalText_done h, List.nil_append]
  split
  next hspaced => simp [hspaced]
  next hspaced => simp [hspaced]

/-- A line is decoded as it should be unless it is lost or made up. -/
theorem decoded_eq_text (item : BodyItem) :
    item.decoded = item.text ↔ item.lost = false ∧ item.madeUp = false := by
  cases item with
  | other text => simp [BodyItem.decoded, BodyItem.text, BodyItem.lost, BodyItem.madeUp]
  | chunk value carried =>
    obtain ⟨finishReason, content⟩ := carried
    simp only [BodyItem.decoded, BodyItem.text, BodyItem.lost, BodyItem.madeUp, ChatChunk.decoded,
      ChatChunk.text]
    cases BodyItem.spaced value <;>
      cases (ChatChunk.mk finishReason content).finished <;> cases content <;> simp [List.nil_eq]

theorem decoded_of_lost {item : BodyItem} (h : item.lost = true) : item.decoded = [] := by
  cases item with
  | other text => rfl
  | chunk value carried =>
    simp only [BodyItem.lost, Bool.and_eq_true, Bool.or_eq_true, Bool.not_eq_true'] at h
    rcases h.2 with hspaced | hfinished
    · simp [BodyItem.decoded, hspaced]
    · simp [BodyItem.decoded, ChatChunk.decoded, hfinished]

theorem text_of_madeUp {item : BodyItem} (h : item.madeUp = true) : item.text = [] := by
  cases item with
  | other text => rfl
  | chunk value carried =>
    have hnull : carried.content = .null := by
      simp only [BodyItem.madeUp, Bool.and_eq_true, decide_eq_true_eq] at h
      exact h.1.1
    simp [BodyItem.text, ChatChunk.text, hnull]

section

variable {α β : Type*} {f g : α → List β}

/-- Two texts put together piece by piece agree at every point exactly when the pieces do. -/
theorem flatMap_take_eq_iff (xs : List α) :
    (∀ n, (xs.take n).flatMap f = (xs.take n).flatMap g) ↔ ∀ x ∈ xs, f x = g x := by
  constructor
  · intro h
    induction xs with
    | nil => exact nofun
    | cons x xs ih =>
      have hx : f x = g x := by simpa using h 1
      refine List.forall_mem_cons.mpr ⟨hx, ih fun n => ?_⟩
      have hn := h (n + 1)
      simp only [List.take_succ_cons, List.flatMap_cons, hx] at hn
      exact List.append_cancel_left hn
  · intro h n
    exact List.flatMap_congr fun x hx => h x (List.mem_of_mem_take hx)

theorem length_flatMap_le (xs : List α) (h : ∀ x ∈ xs, f x = g x ∨ f x = []) :
    (xs.flatMap f).length ≤ (xs.flatMap g).length := by
  induction xs with
  | nil => exact Nat.le_refl _
  | cons x xs ih =>
    obtain ⟨hx, hxs⟩ := List.forall_mem_cons.mp h
    have hrest := ih hxs
    simp only [List.flatMap_cons, List.length_append]
    rcases hx with hx | hx
    · rw [hx]
      omega
    · rw [hx, List.length_nil]
      omega

theorem flatMap_eq_iff (xs : List α) (h : ∀ x ∈ xs, f x = g x ∨ f x = []) :
    xs.flatMap f = xs.flatMap g ↔ ∀ x ∈ xs, f x = g x := by
  refine ⟨fun heq => ?_, fun heq => List.flatMap_congr heq⟩
  induction xs with
  | nil => exact nofun
  | cons x xs ih =>
    obtain ⟨hx, hxs⟩ := List.forall_mem_cons.mp h
    simp only [List.flatMap_cons] at heq
    have hhead : f x = g x := by
      rcases hx with hx | hx
      · exact hx
      · have hlen := congrArg List.length heq
        have hrest := length_flatMap_le xs hxs
        simp only [hx, List.length_append, List.length_nil] at hlen
        have hg : g x = [] := List.length_eq_zero_iff.mp (by omega)
        rw [hx, hg]
    rw [hhead] at heq
    exact List.forall_mem_cons.mpr ⟨hhead, ih hxs (List.append_cancel_left heq)⟩

end

theorem clean_iff {items : List BodyItem} {done : Text} :
    Clean items done ↔ BodyItem.spaced done = true ∧ ∀ item ∈ items, item.decoded = item.text := by
  unfold Clean
  refine and_congr_right fun _ => ⟨fun h item hitem => ?_, fun h item hitem => ?_⟩
  · exact (decoded_eq_text item).mpr (h item hitem)
  · exact (decoded_eq_text item).mp (h item hitem)

/-- Where texts are not both lost and made up, a body is decoded as it should be only if it is clean. -/
theorem decoded_iff_clean (hdone : parse "[DONE]".toList = none) (p : OnlineLLMProvider)
    {items : List BodyItem} (hitems : ∀ item ∈ items, item.Valid parse) {done : Text}
    (h : sseData done = "[DONE]".toList)
    (hone : (∀ item ∈ items, item.lost = false) ∨ (∀ item ∈ items, item.madeUp = false)) :
    p.Decoded parse items done broken ↔ Clean items done := by
  rw [clean_iff, decoded_iff hdone p hitems h]
  refine and_congr_right fun _ => ?_
  rcases hone with hlost | hmadeUp
  · -- nothing is lost, so a line that differs has no text of its own
    rw [eq_comm, flatMap_eq_iff]
    · exact forall₂_congr fun _ _ => eq_comm
    · intro item hitem
      cases hmade : item.madeUp with
      | true => exact .inr (text_of_madeUp hmade)
      | false => exact .inl ((decoded_eq_text item).mpr ⟨hlost item hitem, hmade⟩).symm
  · -- nothing is made up, so a line that differs has nothing decoded
    rw [flatMap_eq_iff]
    intro item hitem
    cases hlost : item.lost with
    | true => exact .inr (decoded_of_lost hlost)
    | false => exact .inl ((decoded_eq_text item).mpr ⟨hlost, hmadeUp item hitem⟩)

/-- A body and each of its beginnings are decoded without loss exactly when the [DONE] line has its
space, no chunk with text has a finish reason or lacks the space, and no null content is read; for
the body alone the same holds unless texts are lost and others made up in one body. -/
theorem openAI_decoded_iff (hdone : parse "[DONE]".toList = none) (p : OnlineLLMProvider)
    (items : List BodyItem) (hitems : ∀ item ∈ items, item.Valid parse) (done : Text)
    (h : sseData done = "[DONE]".toList) (broken : Option (Option Text)) :
    ((∀ n, p.Decoded parse (items.take n) done broken) ↔ Clean items done) ∧
      ((∀ item ∈ items, item.lost = false) ∨ (∀ item ∈ items, item.madeUp = false) →
        (p.Decoded parse items done broken ↔ Clean items done)) := by
  refine ⟨?_, decoded_iff_clean hdone p hitems h⟩
  have htake (n : Nat) : p.Decoded parse (items.take n) done broken ↔
      BodyItem.spaced done = true ∧
        (items.take n).flatMap (·.decoded) = (items.take n).flatMap (·.text) :=
    decoded_iff hdone p (fun item hitem => hitems item (List.mem_of_mem_take hitem)) h
  rw [clean_iff]
  constructor
  · intro hall
    refine ⟨((htake 0).mp (hall 0)).1, ?_⟩
    exact (flatMap_take_eq_iff items).mp fun n => ((htake n).mp (hall n)).2
  · rintro ⟨hspaced, heq⟩ n
    exact (htake n).mpr ⟨hspaced, (flatMap_take_eq_iff items).mpr heq n⟩

/-- A chunk as a server sends it, with the text it is parsed from. -/
def sampleChunk (content finishReason : OrgJson) : JSONObject :=
  [("choices".toList, .arr [.obj [("delta".toList, .obj [("content".toList, content)]),
    ("finish_reason".toList, finishReason)]])]

/-- A parser of the printed samples. -/
def sampleParse (samples : List JSONObject) (text : Text) : Option JSONObject :=
  (samples.map fun json => ((OrgJson.obj json).print, json)).lookup text

def sampleItem (content finishReason : OrgJson) (chunk : ChatChunk) : BodyItem :=
  .chunk (' ' :: (OrgJson.obj (sampleChunk content finishReason)).print) chunk

def sampleProvider : OnlineLLMProvider := ⟨.openai, "key".toList, [], true⟩

/-- A greeting in two chunks, between them the line that ends an event. -/
def greeting : List BodyItem :=
  [sampleItem (.str "Hel".toList) .null ⟨.null, .str "Hel".toList⟩, .other [],
    sampleItem (.str "lo".toList) .null ⟨.null, .str "lo".toList⟩]

def greetingParse : Text → Option JSONObject :=
  sampleParse [sampleChunk (.str "Hel".toList) .null, sampleChunk (.str "lo".toList) .null]

theorem openAI_decoded_greeting :
    sampleProvider.Decoded greetingParse greeting " [DONE]".toList none :=
  have hdone : greetingParse "[DONE]".toList = none := by decide +kernel
  ((openAI_decoded_iff hdone sampleProvider greeting (by decide +kernel) " [DONE]".toList rfl
    none).2 (.inl (by decide +kernel))).mpr ⟨rfl, by decide +kernel⟩

/-- The last chunk of an answer has both its text and its finish reason. -/
theorem last_chunk_lost :
    ¬ ∀ (parse : Text → Option JSONObject), parse "[DONE]".toList = none →
      ∀ (p : OnlineLLMProvider) (items : List BodyItem), (∀ item ∈ items, item.Valid parse) →
        ∀ done : Text, sseData done = "[DONE]".toList → p.Decoded parse items done none := by
  intro h
  have hdecoded : sampleProvider.Decoded
      (sampleParse [sampleChunk (.str "Hi".toList) (.str "stop".toList)])
      [sampleItem (.str "Hi".toList) (.str "stop".toList) ⟨.str "stop".toList, .str "Hi".toList⟩]
      " [DONE]".toList none :=
    h _ (by decide +kernel) sampleProvider _ (by decide +kernel) _ rfl
  exact absurd hdecoded (by decide +kernel)

end HeyNilo
