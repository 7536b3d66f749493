import HeyNilo.Machine
import HeyNilo.SentenceCuts
import HeyNilo.SpeechFilter
import Mathlib.Algebra.GroupWithZero.Nat

namespace HeyNilo

inductive QueueMode where
  | queueFlush
  | queueAdd
deriving DecidableEq, Repr

/-- Where `llmProviderJob` stands: in its stream, with a token appended, with the bubble set, with
`isLLMResponseComplete` set (after a complete response and in the safety net alike), with the final
bubble set, and after its check for a TTS job. -/
inductive ReplyPoint where
  | collect
  | appended
  | bubble
  | complete
  | final
  | done
deriving DecidableEq, Repr

/-- Where the loop of `startStreamingTTS` stands: before its search for a sentence, before it checks
`isLLMResponseComplete`, and in its wait for the engine. -/
inductive LoopPoint where
  | sentence
  | completion
  | waiting
deriving DecidableEq, Repr

structure SpeechLoop where
  lastSentToTTSIndex : Nat
  isFirstChunk : Bool
  point : LoopPoint
deriving DecidableEq, Repr

/-- A turn with a ready TTS engine. `slices` are the parts of the source text that the loop took, and
`spoken` the calls of `speakQueued`. -/
structure StreamingSpeech where
  fullResponseText : Text
  finalBubbleText : Text
  isLLMResponseComplete : Bool
  isFirstToken : Bool
  isStreamingTTSActive : Bool
  awaitsCompletion : Bool
  reply : ReplyPoint
  streamingTTSJob : Option SpeechLoop
  slices : List Text
  spoken : List (Text × QueueMode)
deriving DecidableEq, Repr

/-- The zeros of the decimal digits (`Nd`) that one `Char` of Kotlin holds. -/
def digitZeros : List Nat :=
  [0x30, 0x660, 0x6F0, 0x7C0, 0x966, 0x9E6, 0xA66, 0xAE6, 0xB66, 0xBE6, 0xC66, 0xCE6, 0xD66, 0xDE6,
    0xE50, 0xED0, 0xF20, 0x1040, 0x1090, 0x17E0, 0x1810, 0x1946, 0x19D0, 0x1A80, 0x1A90, 0x1B50,
    0x1BB0, 0x1C40, 0x1C50, 0xA620, 0xA8D0, 0xA900, 0xA9D0, 0xA9F0, 0xAA50, 0xABF0, 0xFF10]

def isDigit (c : Char) : Bool := digitZeros.any fun first => first ≤ c.toNat && c.toNat < first + 10

/-- `text.length`: a character outside the basic plane counts twice. -/
def utf16Length (text : Text) : Nat :=
  (text.map fun c => if c.toNat < 0x10000 then 1 else 2).sum

/-- The loop of `hasCompleteSentence`, with the two characters before; the last character is not
looked at. -/
def completeSentenceLoop : Option Char → Char → Text → Bool
  | before, previous, c :: next :: rest =>
    if isSentenceEnd c && !(isDigit previous && (before = none || before = some ' ')) then true
    else completeSentenceLoop (some previous) c (next :: rest)
  | _, _, _ => false

def hasCompleteSentence (text : Text) : Bool :=
  if utf16Length text < 20 then false
  else
    match text with
    | first :: rest => completeSentenceLoop none first rest
    | [] => false

namespace StreamingSpeech

def start : StreamingSpeech where
  fullResponseText := []
  finalBubbleText := []
  isLLMResponseComplete := false
  isFirstToken := true
  isStreamingTTSActive := false
  awaitsCompletion := false
  reply := .collect
  streamingTTSJob := none
  slices := []
  spoken := []

def ttsIdle (s : StreamingSpeech) : Bool := !s.isStreamingTTSActive && s.streamingTTSJob.isNone

def startStreamingTTS (s : StreamingSpeech) : StreamingSpeech :=
  if s.streamingTTSJob.isSome then s
  else if s.isStreamingTTSActive then s
  else { s with isStreamingTTSActive := true, streamingTTSJob := some ⟨0, true, .sentence⟩ }

def restartListening (s : StreamingSpeech) : StreamingSpeech :=
  { s with
    streamingTTSJob := none
    isStreamingTTSActive := false
    isLLMResponseComplete := false
    fullResponseText := [] }

def sourceText (s : StreamingSpeech) : Text :=
  if !isBlank s.finalBubbleText then s.finalBubbleText else removeImEndTokenOnly s.fullResponseText

/-- What is spoken of a slice, if anything. -/
def filtered (slice : Text) : Option Text :=
  let sentence := trim slice
  if !isBlank sentence then
    let filtered := filterTTSText sentence
    if !isBlank filtered then some filtered else none
  else none

/-- The calls of `speakQueued` for a slice. -/
def queued (isFirstChunk : Bool) (slice : Text) : List (Text × QueueMode) :=
  match filtered slice with
  | some filtered => [(filtered, if isFirstChunk then .queueFlush else .queueAdd)]
  | none => []

def speakSlice (s : StreamingSpeech) (isFirstChunk : Bool) (slice : Text) : StreamingSpeech :=
  { s with slices := s.slices ++ [slice], spoken := s.spoken ++ queued isFirstChunk slice }

/-- The search of the loop for a complete sentence. -/
def speakSentence (s : StreamingSpeech) (loop : SpeechLoop) : StreamingSpeech :=
  let sourceText := s.sourceText
  if sourceText.length > loop.lastSentToTTSIndex then
    let unspokenText := sourceText.drop loop.lastSentToTTSIndex
    match unspokenText.findIdx? isSentenceEnd with
    | some sentenceEnd =>
      let sentence := unspokenText.take (sentenceEnd + 1)
      { s.speakSlice loop.isFirstChunk sentence with
        streamingTTSJob := some {
          lastSentToTTSIndex := loop.lastSentToTTSIndex + (sentenceEnd + 1)
          isFirstChunk := loop.isFirstChunk && (filtered sentence).isNone
          point := .completion } }
    | none => { s with streamingTTSJob := some { loop with point := .completion } }
  else { s with streamingTTSJob := some { loop with point := .completion } }

/-- The end of an iteration: with the reply complete the rest of it is spoken. -/
def speakRemainder (s : StreamingSpeech) (loop : SpeechLoop) : StreamingSpeech :=
  if s.isLLMResponseComplete then
    let sourceText := s.sourceText
    let s := { s with streamingTTSJob := some { loop with point := .waiting } }
    if sourceText.length > loop.lastSentToTTSIndex then
      s.speakSlice loop.isFirstChunk (sourceText.drop loop.lastSentToTTSIndex)
    else s
  else { s with streamingTTSJob := some { loop with point := .sentence } }

inductive Event where
  /-- A streaming response. -/
  | stream (text : Text)
  | setBubble
  | checkSentence
  /-- The complete response, or the end of the stream without one. -/
  | complete
  | setFinalBubble
  /-- A blank reply restarts the listening, unless a restart is under way or the pipeline stopped. -/
  | checkTTS (restarts : Bool)
  | loop
  /-- The `finally` block of the TTS job. -/
  | loopEnds
  /-- `awaitCompletionAndListen` has seen both jobs done. -/
  | completionWait
deriving DecidableEq, Repr

def step (s : StreamingSpeech) : Event → Option StreamingSpeech
  | .stream text =>
    if s.reply = .collect then
      if s.isFirstToken then some { s with isFirstToken := false }
      else some { s with
        fullResponseText := s.fullResponseText ++ newToken s.fullResponseText text
        reply := .appended }
    else none
  | .setBubble =>
    if s.reply = .appended then
      some { s with
        finalBubbleText := removeImEndTokenOnly s.fullResponseText
        reply := .bubble }
    else none
  | .checkSentence =>
    if s.reply = .bubble then
      let s := if s.ttsIdle && hasCompleteSentence s.finalBubbleText then s.startStreamingTTS else s
      some { s with reply := .collect }
    else none
  | .complete =>
    if s.reply = .collect then some { s with isLLMResponseComplete := true, reply := .complete }
    else none
  | .setFinalBubble =>
    if s.reply = .complete then
      some { s with
        finalBubbleText := removeImEndTokenOnly s.fullResponseText
        reply := .final }
    else none
  | .checkTTS restarts =>
    if s.reply = .final then
      let s :=
        if s.ttsIdle && !isBlank s.finalBubbleText then s.startStreamingTTS
        else if isBlank s.finalBubbleText && restarts then s.restartListening
        else s
      some { s with reply := .done, awaitsCompletion := true }
    else none
  | .loop =>
    s.streamingTTSJob.bind fun loop =>
      match loop.point with
      | .sentence => some (s.speakSentence loop)
      | .completion => some (s.speakRemainder loop)
      | .waiting => none
  | .loopEnds =>
    s.streamingTTSJob.bind fun loop =>
      if loop.point = .waiting then
        some { s with
          isStreamingTTSActive := false
          streamingTTSJob := none
          awaitsCompletion := true }
      else none
  | .completionWait =>
    if s.awaitsCompletion && s.isLLMResponseComplete && s.ttsIdle then
      some { s with fullResponseText := [], awaitsCompletion := false }
    else none

/-- The pieces of a reply cut into slices. -/
def pieces (slices : List Text) : List Text := slices.filterMap filtered

/-- The calls of `speakQueued` for a reply: the first piece flushes the queue. -/
def utterances (slices : List Text) : List (Text × QueueMode) :=
  match pieces slices with
  | [] => []
  | first :: rest => (first, .queueFlush) :: rest.map fun piece => (piece, .queueAdd)

/-- What the loop has taken is a beginning of the text it reads. -/
def Stable (s : StreamingSpeech) : Prop := s.slices.flatten <+: s.sourceText

def Finished (s : StreamingSpeech) : Prop := s.reply = .done ∧ s.streamingTTSJob = none

instance (s : StreamingSpeech) : Decidable s.Finished := inferInstanceAs (Decidable (_ ∧ _))

/-- The slices make up the reply (a blank one is not read at all), and they are spoken once. -/
def SpeaksReply (s : StreamingSpeech) : Prop :=
  (s.slices.flatten = s.finalBubbleText ∨ isBlank s.finalBubbleText = true ∧ s.slices = []) ∧
    s.spoken = utterances s.slices

instance (s : StreamingSpeech) : Decidable s.SpeaksReply := inferInstanceAs (Decidable (_ ∧ _))

/-- No TTS job ends while the LLM job is between setting `isLLMResponseComplete` and its check for a
TTS job. -/
def endsAfterCheck (s : StreamingSpeech) (e : Event) : Prop := e = .loopEnds → s.reply = .done

instance (s : StreamingSpeech) (e : Event) : Decidable (s.endsAfterCheck e) :=
  inferInstanceAs (Decidable (_ → _))

theorem utterances_append (slices : List Text) (slice : Text) :
    utterances (slices ++ [slice]) =
      utterances slices ++ queued (utterances slices).isEmpty slice := by
  unfold utterances pieces queued
  rw [List.filterMap_append]
  cases hslice : filtered slice with
  | none => simp [hslice]
  | some piece =>
    cases hpieces : slices.filterMap filtered with
    | nil => simp [hslice]
    | cons first rest => simp [hslice]

end StreamingSpeech

end HeyNilo
