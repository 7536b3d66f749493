import HeyNilo.StreamingSpeech

namespace HeyNilo

/-- The LLM job has not set `isLLMResponseComplete` yet. -/
def ReplyPoint.isStreaming : ReplyPoint → Bool
  | .collect | .appended | .bubble => true
  | .complete | .final | .done => false

theorem ReplyPoint.isStreaming_of_ne {reply : ReplyPoint} (h : reply.isStreaming = false)
    (hne : reply ≠ .done) : reply = .complete ∨ reply = .final := by
  cases reply <;> simp_all [ReplyPoint.isStreaming]

namespace StreamingSpeech

variable {s t : StreamingSpeech} {e : Event} {loop : SpeechLoop} {shown a : Text}

/-- `finalBubbleText` is taken from `shown`, the text up to the response before. -/
structure Shows (s : StreamingSpeech) (shown : Text) : Prop where
  bubble : s.finalBubbleText = removeImEndTokenOnly shown
  ahead : s.reply ≠ .done → shown <+: s.fullResponseText
  level : s.reply ≠ .appended → s.reply ≠ .done → s.fullResponseText = shown
  flagged : s.isLLMResponseComplete = true → s.reply.isStreaming = false

/-- No TTS job has been started. -/
structure Unstarted (s : StreamingSpeech) : Prop where
  job : s.streamingTTSJob = none
  active : s.isStreamingTTSActive = false
  slices : s.slices = []
  spoken : s.spoken = []
  awaits : s.awaitsCompletion = true → s.reply = .done
  blank : s.reply = .done → isBlank s.finalBubbleText = true

/-- The loop has taken the text up to the cut `a`. -/
structure Speaking (s : StreamingSpeech) (loop : SpeechLoop) (shown a : Text) : Prop where
  job : s.streamingTTSJob = some loop
  active : s.isStreamingTTSActive = true
  going : loop.point ≠ .waiting
  index : loop.lastSentToTTSIndex = (removeImEndTokenOnly a).length
  first : loop.isFirstChunk = s.spoken.isEmpty
  cut : IsCut a
  before : a <+: shown
  slices : s.slices.flatten = removeImEndTokenOnly a
  spoken : s.spoken = utterances s.slices
  nonblank : isBlank s.finalBubbleText = false
  sentence : s.reply.isStreaming = true → ∃ c ∈ shown, isSentenceEnd c = true

/-- The whole reply is spoken. -/
structure Spoken (s : StreamingSpeech) : Prop where
  slices : s.slices.flatten = s.finalBubbleText
  spoken : s.spoken = utterances s.slices
  nonblank : isBlank s.finalBubbleText = false
  complete : s.reply.isStreaming = false

inductive Phase (s : StreamingSpeech) : Prop where
  | unstarted (shown : Text) : Shows s shown → Unstarted s → Phase s
  | speaking (shown a : Text) (loop : SpeechLoop) : Shows s shown → Speaking s loop shown a → Phase s
  | waiting (shown : Text) (loop : SpeechLoop) : Shows s shown → Spoken s →
      s.streamingTTSJob = some loop → loop.point = .waiting → s.isStreamingTTSActive = true → Phase s
  | ended : Spoken s → s.streamingTTSJob = none → s.isStreamingTTSActive = false →
      s.reply = .done → Phase s

theorem ttsIdle_of_active (h : s.isStreamingTTSActive = true) : s.ttsIdle = false := by
  simp [ttsIdle, h]

theorem mem_removeImEndTokenOnly {text : Text} {c : Char} (hc : isSentenceEnd c = true)
    (hmem : c ∈ text) : c ∈ removeImEndTokenOnly text := by
  obtain ⟨front, rest, rfl⟩ := List.append_of_mem hmem
  rw [removeImEndTokenOnly_append_cons hc]
  exact List.mem_append_right _ List.mem_cons_self

theorem not_isWhitespace_of_sentenceEnd {c : Char} (hc : isSentenceEnd c = true) :
    isWhitespace c = false := by
  simp only [isSentenceEnd, Bool.or_eq_true, beq_iff_eq] at hc
  rcases hc with (rfl | rfl) | rfl <;> decide

theorem not_isBlank_of_mem {text : Text} {c : Char} (hc : isSentenceEnd c = true)
    (hmem : c ∈ text) : isBlank text = false := by
  refine List.all_eq_false.mpr ⟨c, hmem, ?_⟩
  simp [not_isWhitespace_of_sentenceEnd hc]

theorem completeSentenceLoop_mem {before : Option Char} {previous : Char} {text : Text}
    (h : completeSentenceLoop before previous text = true) : ∃ c ∈ text, isSentenceEnd c = true := by
  induction text generalizing before previous with
  | nil => simp [completeSentenceLoop] at h
  | cons c text ih =>
    cases text with
    | nil => simp [completeSentenceLoop] at h
    | cons next rest =>
      rw [completeSentenceLoop] at h
      split at h
      next hend => exact ⟨c, List.mem_cons_self, (Bool.and_eq_true_iff.mp hend).1⟩
      next =>
        obtain ⟨d, hd, hend⟩ := ih h
        exact ⟨d, List.mem_cons_of_mem _ hd, hend⟩

/-- The first sentence that starts the TTS has its end in the text. -/
theorem hasCompleteSentence_mem {text : Text} (h : hasCompleteSentence text = true) :
    ∃ c ∈ text, isSentenceEnd c = true := by
  unfold hasCompleteSentence at h
  split at h
  next => cases h
  next =>
    cases text with
    | nil => cases h
    | cons first rest =>
      obtain ⟨c, hc, hend⟩ := completeSentenceLoop_mem h
      exact ⟨c, List.mem_cons_of_mem _ hc, hend⟩

/-- The steps of the LLM job that only write texts and the flag. -/
def Event.writesText : Event → Bool
  | .stream _ | .setBubble | .complete | .setFinalBubble => true
  | _ => false

/-- What such a step does to the texts, with everything of the TTS job as before. -/
structure TextStep (s t : StreamingSpeech) (shown shown' : Text) : Prop where
  shows : Shows t shown'
  grows : shown <+: shown'
  job : t.streamingTTSJob = s.streamingTTSJob
  active : t.isStreamingTTSActive = s.isStreamingTTSActive
  slices : t.slices = s.slices
  spoken : t.spoken = s.spoken
  awaits : t.awaitsCompletion = s.awaitsCompletion
  undone : s.reply ≠ .done ∧ t.reply ≠ .done
  streaming : t.reply.isStreaming = true → s.reply.isStreaming = true
  final : s.reply.isStreaming = true ∨ t.finalBubbleText = s.finalBubbleText

theorem undone_of_text (htext : e.writesText = true) (hs : step s e = some t) :
    s.reply ≠ .done := by
  have hpoint : ∃ point ≠ ReplyPoint.done, s.reply = point := by
    cases e with
    | stream text => exact ⟨.collect, by decide, (Option.ite_none_right_eq_some.mp hs).1⟩
    | setBubble => exact ⟨.appended, by decide, (Option.ite_none_right_eq_some.mp hs).1⟩
    | complete => exact ⟨.collect, by decide, (Option.ite_none_right_eq_some.mp hs).1⟩
    | setFinalBubble => exact ⟨.complete, by decide, (Option.ite_none_right_eq_some.mp hs).1⟩
    | checkSentence => cases htext
    | checkTTS restarts => cases htext
    | loop => cases htext
    | loopEnds => cases htext
    | completionWait => cases htext
  obtain ⟨point, hne, hreply⟩ := hpoint
  rw [hreply]
  exact hne

theorem textStep (h : Shows s shown) (htext : e.writesText = true) (hs : step s e = some t) :
    ∃ shown', TextStep s t shown shown' := by
  have hundone := undone_of_text htext hs
  cases e with
  | stream text =>
    obtain ⟨hreply, hs⟩ := Option.ite_none_right_eq_some.mp hs
    have hstreaming : s.reply.isStreaming = true := by rw [hreply]; rfl
    have hflagged : s.isLLMResponseComplete = true → False := fun hflag =>
      Bool.false_ne_true ((h.flagged hflag).symm.trans hstreaming)
    split at hs
    next =>
      cases Option.some.inj hs
      exact ⟨shown, ⟨h.bubble, h.ahead, h.level, h.flagged⟩, List.prefix_rfl, rfl, rfl, rfl, rfl, rfl,
        ⟨hundone, hundone⟩, id, .inr rfl⟩
    next =>
      cases Option.some.inj hs
      refine ⟨shown, ⟨h.bubble, ?_, ?_, ?_⟩, List.prefix_rfl, rfl, rfl, rfl, rfl, rfl, ?_, ?_, .inr rfl⟩
      · exact fun _ => (h.ahead hundone).trans (List.prefix_append _ _)
      · exact fun hne => absurd rfl hne
      · exact fun hflag => (hflagged hflag).elim
      · exact ⟨hundone, fun hdone => by cases hdone⟩
      · exact fun _ => hstreaming
  | setBubble =>
    obtain ⟨hreply, hs⟩ := Option.ite_none_right_eq_some.mp hs
    have hstreaming : s.reply.isStreaming = true := by rw [hreply]; rfl
    cases Option.some.inj hs
    refine ⟨s.fullResponseText, ⟨rfl, fun _ => List.prefix_rfl, fun _ _ => rfl, ?_⟩, h.ahead hundone,
      rfl, rfl, rfl, rfl, rfl, ⟨hundone, fun hdone => by cases hdone⟩, fun _ => hstreaming, .inl hstreaming⟩
    intro hflag
    exact absurd ((h.flagged hflag).symm.trans hstreaming) Bool.false_ne_true
  | complete =>
    obtain ⟨hreply, hs⟩ := Option.ite_none_right_eq_some.mp hs
    have hstreaming : s.reply.isStreaming = true := by rw [hreply]; rfl
    have hlevel : s.fullResponseText = shown := h.level (by rw [hreply]; decide) hundone
    cases Option.some.inj hs
    exact ⟨shown, ⟨h.bubble, fun _ => h.ahead hundone, fun _ _ => hlevel, fun _ => rfl⟩,
      List.prefix_rfl, rfl, rfl, rfl, rfl, rfl, ⟨hundone, fun hdone => by cases hdone⟩, fun _ => hstreaming, .inr rfl⟩
  | setFinalBubble =>
    obtain ⟨hreply, hs⟩ := Option.ite_none_right_eq_some.mp hs
    have hlevel : s.fullResponseText = shown := h.level (by rw [hreply]; decide) hundone
    cases Option.some.inj hs
    refine ⟨shown, ⟨by rw [hlevel], fun _ => h.ahead hundone, fun _ _ => hlevel, fun _ => rfl⟩,
      List.prefix_rfl, rfl, rfl, rfl, rfl, rfl, ⟨hundone, fun hdone => by cases hdone⟩, fun hstreaming => ?_, .inr ?_⟩
    · exact absurd hstreaming Bool.false_ne_true
    · rw [h.bubble, hlevel]
  | checkSentence => cases htext
  | checkTTS restarts => cases htext
  | loop => cases htext
  | loopEnds => cases htext
  | completionWait => cases htext

theorem Unstarted.text {shown' : Text} (h : Unstarted s) (ht : TextStep s t shown shown') :
    Unstarted t where
  job := ht.job.trans h.job
  active := ht.active.trans h.active
  slices := ht.slices.trans h.slices
  spoken := ht.spoken.trans h.spoken
  awaits hawaits := absurd (h.awaits (ht.awaits.symm.trans hawaits)) ht.undone.1
  blank hdone := absurd hdone ht.undone.2

theorem Speaking.text {shown' : Text} (h : Speaking s loop shown a)
    (ht : TextStep s t shown shown') : Speaking t loop shown' a where
  job := ht.job.trans h.job
  active := ht.active.trans h.active
  going := h.going
  index := h.index
  first := by rw [ht.spoken]; exact h.first
  cut := h.cut
  before := h.before.trans ht.grows
  slices := by rw [ht.slices]; exact h.slices
  spoken := by rw [ht.spoken, ht.slices]; exact h.spoken
  nonblank := by
    rcases ht.final with hstreaming | hsame
    · obtain ⟨c, hc, hend⟩ := h.sentence hstreaming
      rw [ht.shows.bubble]
      exact not_isBlank_of_mem hend (mem_removeImEndTokenOnly hend (ht.grows.mem hc))
    · rw [hsame]
      exact h.nonblank
  sentence hstreaming := by
    obtain ⟨c, hc, hend⟩ := h.sentence (ht.streaming hstreaming)
    exact ⟨c, ht.grows.mem hc, hend⟩

theorem Spoken.text {shown' : Text} (h : Spoken s) (ht : TextStep s t shown shown') : Spoken t := by
  have hsame : t.finalBubbleText = s.finalBubbleText := by
    rcases ht.final with hstreaming | hsame
    · exact absurd (h.complete.symm.trans hstreaming) Bool.false_ne_true
    · exact hsame
  have hcomplete : t.reply.isStreaming = false := by
    by_contra hstreaming
    have hstreaming := ht.streaming (by simpa using hstreaming)
    exact Bool.false_ne_true (h.complete.symm.trans hstreaming)
  refine ⟨?_, ?_, ?_, hcomplete⟩
  · rw [ht.slices, hsame, h.slices]
  · rw [ht.spoken, ht.slices, h.spoken]
  · rw [hsame, h.nonblank]

theorem Phase.text (h : Phase s) (htext : e.writesText = true) (hs : step s e = some t) :
    Phase t := by
  cases h with
  | unstarted shown hshows hunstarted =>
    obtain ⟨shown', ht⟩ := textStep hshows htext hs
    exact .unstarted shown' ht.shows (hunstarted.text ht)
  | speaking shown a loop hshows hspeaking =>
    obtain ⟨shown', ht⟩ := textStep hshows htext hs
    exact .speaking shown' a loop ht.shows (hspeaking.text ht)
  | waiting shown loop hshows hspoken hjob hpoint hactive =>
    obtain ⟨shown', ht⟩ := textStep hshows htext hs
    exact .waiting shown' loop ht.shows (hspoken.text ht) (ht.job.trans hjob) hpoint
      (ht.active.trans hactive)
  | ended hspoken hjob hactive hdone =>
    exact absurd hdone (undone_of_text htext hs)

theorem flatten_speakSlice (s : StreamingSpeech) (first : Bool) (slice : Text) :
    (s.speakSlice first slice).slices.flatten = s.slices.flatten ++ slice := by
  simp [speakSlice]

/-- A slice is spoken as the next one of the reply. -/
theorem spoken_speakSlice {first : Bool} (hspoken : s.spoken = utterances s.slices)
    (hfirst : first = s.spoken.isEmpty) (slice : Text) :
    (s.speakSlice first slice).spoken = utterances (s.slices ++ [slice]) ∧
      (first && (filtered slice).isNone) = (s.speakSlice first slice).spoken.isEmpty := by
  rw [utterances_append, ← hspoken, hfirst]
  refine ⟨rfl, ?_⟩
  unfold speakSlice queued
  cases filtered slice with
  | none => simp
  | some piece => simp

theorem sourceText_of_nonblank (h : isBlank s.finalBubbleText = false) :
    s.sourceText = s.finalBubbleText := by
  simp [sourceText, h]

/-- The text that the loop has not taken yet. -/
theorem Speaking.unspoken (h : Speaking s loop shown a) (hshows : Shows s shown) :
    ∃ b, shown = a ++ b ∧ s.sourceText.drop loop.lastSentToTTSIndex = removeImEndTokenOnly b ∧
      s.sourceText.length = loop.lastSentToTTSIndex + (removeImEndTokenOnly b).length := by
  obtain ⟨b, rfl⟩ := h.before
  have hsource : s.sourceText = removeImEndTokenOnly a ++ removeImEndTokenOnly b := by
    rw [sourceText_of_nonblank h.nonblank, hshows.bubble, removeImEndTokenOnly_append h.cut]
  refine ⟨b, rfl, ?_, ?_⟩
  · rw [hsource, h.index, List.drop_left]
  · rw [hsource, h.index, List.length_append]

theorem Shows.of_kept (h : Shows s shown) (hbubble : t.finalBubbleText = s.finalBubbleText)
    (hfull : t.fullResponseText = s.fullResponseText) (hreply : t.reply = s.reply)
    (hflag : t.isLLMResponseComplete = s.isLLMResponseComplete) : Shows t shown where
  bubble := hbubble.trans h.bubble
  ahead := by rw [hreply, hfull]; exact h.ahead
  level := by rw [hreply, hfull]; exact h.level
  flagged := by rw [hreply, hflag]; exact h.flagged

/-- With nothing taken the loop goes on to another point. -/
theorem Speaking.moved (h : Speaking s loop shown a) {point : LoopPoint} (hpoint : point ≠ .waiting) :
    Speaking { s with streamingTTSJob := some { loop with point := point } }
      { loop with point := point } shown a :=
  { h with job := rfl, going := hpoint }

theorem Speaking.sentenceStep (h : Speaking s loop shown a) (hshows : Shows s shown) :
    Phase (s.speakSentence loop) := by
  obtain ⟨b, hshown, hunspoken, hlen⟩ := h.unspoken hshows
  have hidle : Phase { s with streamingTTSJob := some { loop with point := .completion } } :=
    .speaking shown a _ (hshows.of_kept rfl rfl rfl rfl) (h.moved (by decide))
  unfold speakSentence
  dsimp only
  split
  next =>
    rw [hunspoken]
    split
    next k hk =>
      obtain ⟨sentence, rest, hb, hcut, htake, hcount⟩ := exists_sentence hk
      have hnext : removeImEndTokenOnly (a ++ sentence) =
          removeImEndTokenOnly a ++ removeImEndTokenOnly sentence := removeImEndTokenOnly_append h.cut
      obtain ⟨hspoken, hfirst⟩ := spoken_speakSlice h.spoken h.first (removeImEndTokenOnly sentence)
      rw [htake]
      refine .speaking shown (a ++ sentence) _ (hshows.of_kept rfl rfl rfl rfl) ⟨rfl, h.active,
        (fun hwaiting => by cases hwaiting), ?_, hfirst, ?_, ?_, ?_, hspoken, h.nonblank, h.sentence⟩
      · show loop.lastSentToTTSIndex + (k + 1) = (removeImEndTokenOnly (a ++ sentence)).length
        rw [hnext, List.length_append, hcount, h.index]
      · rcases hcut with rfl | ⟨front, c, rfl, hc⟩
        · rw [List.append_nil]
          exact h.cut
        · exact .inr ⟨a ++ front, c, by rw [List.append_assoc], hc⟩
      · rw [hshown, hb, ← List.append_assoc]
        exact List.prefix_append _ _
      · rw [hnext, ← h.slices]
        exact flatten_speakSlice s loop.isFirstChunk _
    next => exact hidle
  next => exact hidle

theorem Speaking.remainderStep (h : Speaking s loop shown a) (hshows : Shows s shown) :
    Phase (s.speakRemainder loop) := by
  obtain ⟨b, hshown, hunspoken, hlen⟩ := h.unspoken hshows
  unfold speakRemainder
  split
  next hflag =>
    have hcomplete := hshows.flagged hflag
    have hwhole : s.finalBubbleText = removeImEndTokenOnly a ++ removeImEndTokenOnly b := by
      rw [hshows.bubble, hshown, removeImEndTokenOnly_append h.cut]
    dsimp only
    split
    next =>
      obtain ⟨hspoken, -⟩ := spoken_speakSlice (s := { s with
        streamingTTSJob := some { loop with point := .waiting } }) h.spoken h.first
        (removeImEndTokenOnly b)
      rw [hunspoken]
      refine .waiting shown _ (hshows.of_kept rfl rfl rfl rfl)
        ⟨?_, hspoken, h.nonblank, hcomplete⟩ rfl rfl h.active
      rw [flatten_speakSlice, h.slices]
      exact hwhole.symm
    next hall =>
      have hnil : removeImEndTokenOnly b = [] := List.length_eq_zero_iff.mp (by omega)
      refine .waiting shown _ (hshows.of_kept rfl rfl rfl rfl)
        ⟨?_, h.spoken, h.nonblank, hcomplete⟩ rfl rfl h.active
      rw [h.slices]
      exact (hwhole.trans (by rw [hnil, List.append_nil])).symm
  next => exact .speaking shown a _ (hshows.of_kept rfl rfl rfl rfl) (h.moved (by decide))

/-- A TTS job starts at the beginning of the text. -/
theorem Unstarted.started (h : Unstarted s) (shown : Text)
    (hnonblank : isBlank s.finalBubbleText = false)
    (hsentence : s.reply.isStreaming = true → ∃ c ∈ shown, isSentenceEnd c = true) :
    Speaking s.startStreamingTTS ⟨0, true, .sentence⟩ shown [] := by
  have hstarted : s.startStreamingTTS = { s with
      isStreamingTTSActive := true
      streamingTTSJob := some ⟨0, true, .sentence⟩ } := by
    unfold startStreamingTTS
    rw [h.job, h.active]
    rfl
  rw [hstarted]
  exact ⟨rfl, rfl, (fun hwaiting => by cases hwaiting), rfl, by rw [h.spoken]; rfl, .inl rfl,
    List.nil_prefix, by rw [h.slices]; rfl, by rw [h.slices, h.spoken]; rfl, hnonblank, hsentence⟩

theorem Unstarted.ttsIdle (h : Unstarted s) : s.ttsIdle = true := by
  simp [StreamingSpeech.ttsIdle, h.job, h.active]

theorem Phase.checkSentence (h : Phase s) (hs : step s .checkSentence = some t) : Phase t := by
  obtain ⟨hreply, hs⟩ := Option.ite_none_right_eq_some.mp hs
  have hs := Option.some.inj hs
  have hstreaming : s.reply.isStreaming = true := by rw [hreply]; rfl
  have hundone : s.reply ≠ .done := fun hdone => by rw [hreply] at hdone; cases hdone
  have hlevel : s.reply ≠ .appended := fun happended => by rw [hreply] at happended; cases happended
  have hshown : ∀ shown, Shows s shown → ∀ u : StreamingSpeech,
      u.finalBubbleText = s.finalBubbleText → u.fullResponseText = s.fullResponseText →
      u.isLLMResponseComplete = s.isLLMResponseComplete → Shows { u with reply := .collect } shown := by
    intro shown hshows u hbubble hfull hflag
    refine ⟨hbubble.trans hshows.bubble, fun _ => ?_, fun _ _ => hfull.trans (hshows.level hlevel hundone), ?_⟩
    · exact hfull.symm ▸ hshows.ahead hundone
    · intro hset
      have hcomplete := hshows.flagged (hflag.symm.trans hset)
      exact absurd (hcomplete.symm.trans hstreaming) Bool.false_ne_true
  cases h with
  | unstarted shown hshows hunstarted =>
    split at hs
    next hstarts =>
      obtain ⟨-, hsentence⟩ := Bool.and_eq_true_iff.mp hstarts
      obtain ⟨c, hc, hend⟩ := hasCompleteSentence_mem hsentence
      have hmem : c ∈ shown := by
        rw [hshows.bubble] at hc
        exact (removeImEndTokenOnly_sublist shown).subset hc
      have hspeaking := hunstarted.started shown (not_isBlank_of_mem hend hc)
        fun _ => ⟨c, hmem, hend⟩
      have hkept : s.startStreamingTTS.finalBubbleText = s.finalBubbleText ∧
          s.startStreamingTTS.fullResponseText = s.fullResponseText ∧
          s.startStreamingTTS.isLLMResponseComplete = s.isLLMResponseComplete := by
        unfold startStreamingTTS
        split
        next => exact ⟨rfl, rfl, rfl⟩
        next => split <;> exact ⟨rfl, rfl, rfl⟩
      subst hs
      refine .speaking shown [] _ (hshown shown hshows _ hkept.1 hkept.2.1 hkept.2.2)
        { hspeaking with sentence := fun _ => ⟨c, hmem, hend⟩ }
    next =>
      subst hs
      refine .unstarted shown (hshown shown hshows s rfl rfl rfl) { hunstarted with awaits := ?_, blank := ?_ }
      · exact fun hawaits => absurd (hunstarted.awaits hawaits) hundone
      · exact fun hdone => by cases hdone
  | speaking shown a loop hshows hspeaking =>
    rw [ttsIdle_of_active hspeaking.active, Bool.false_and] at hs
    subst hs
    exact .speaking shown a loop (hshown shown hshows s rfl rfl rfl)
      { hspeaking with sentence := fun _ => hspeaking.sentence hstreaming }
  | waiting shown loop hshows hspoken hjob hpoint hactive =>
    exact absurd (hspoken.complete.symm.trans hstreaming) Bool.false_ne_true
  | ended hspoken hjob hactive hdone => exact absurd hdone hundone

theorem Phase.checkTTS {restarts : Bool} (h : Phase s) (hs : step s (.checkTTS restarts) = some t) :
    Phase t := by
  obtain ⟨hreply, hs⟩ := Option.ite_none_right_eq_some.mp hs
  have hs := Option.some.inj hs
  have hundone : s.reply ≠ .done := fun hdone => by rw [hreply] at hdone; cases hdone
  have hdone : ∀ shown, Shows s shown → ∀ u : StreamingSpeech,
      u.finalBubbleText = s.finalBubbleText →
      Shows { u with reply := .done, awaitsCompletion := true } shown := by
    intro shown hshows u hbubble
    exact ⟨hbubble.trans hshows.bubble, fun hne => absurd rfl hne, fun _ hne => absurd rfl hne,
      fun _ => rfl⟩
  cases h with
  | unstarted shown hshows hunstarted =>
    by_cases hblank : isBlank s.finalBubbleText = true
    · rw [hblank, hunstarted.ttsIdle] at hs
      have hkept : ∀ u : StreamingSpeech, u.finalBubbleText = s.finalBubbleText → Unstarted u →
          Phase { u with reply := .done, awaitsCompletion := true } := fun u hbubble hu =>
        .unstarted shown (hdone shown hshows u hbubble)
          { hu with awaits := fun _ => rfl, blank := fun _ => hbubble ▸ hblank }
      cases restarts with
      | true =>
        subst hs
        exact hkept s.restartListening rfl
          ⟨rfl, rfl, hunstarted.slices, hunstarted.spoken, hunstarted.awaits, hunstarted.blank⟩
      | false =>
        subst hs
        exact hkept s rfl hunstarted
    · have hnonblank : isBlank s.finalBubbleText = false := by simpa using hblank
      rw [hnonblank, hunstarted.ttsIdle] at hs
      have hspeaking := hunstarted.started shown hnonblank fun hstreaming => by
        rw [hreply] at hstreaming
        cases hstreaming
      have hkept : s.startStreamingTTS.finalBubbleText = s.finalBubbleText := by
        unfold startStreamingTTS
        split
        next => rfl
        next => split <;> rfl
      subst hs
      exact .speaking shown [] _ (hdone shown hshows _ hkept)
        { hspeaking with sentence := fun hstreaming => absurd hstreaming Bool.false_ne_true }
  | speaking shown a loop hshows hspeaking =>
    rw [ttsIdle_of_active hspeaking.active, hspeaking.nonblank] at hs
    subst hs
    exact .speaking shown a loop (hdone shown hshows s rfl)
      { hspeaking with sentence := fun hstreaming => absurd hstreaming Bool.false_ne_true }
  | waiting shown loop hshows hspoken hjob hpoint hactive =>
    rw [ttsIdle_of_active hactive, hspoken.nonblank] at hs
    subst hs
    exact .waiting shown loop (hdone shown hshows s rfl) { hspoken with complete := rfl } hjob hpoint
      hactive
  | ended hspoken hjob hactive hended => exact absurd hended hundone

theorem Phase.loopStep (h : Phase s) (hs : step s .loop = some t) : Phase t := by
  obtain ⟨loop, hjob, hs⟩ := Option.bind_eq_some_iff.mp hs
  cases h with
  | unstarted shown hshows hunstarted =>
    rw [hunstarted.job] at hjob
    cases hjob
  | speaking shown a other hshows hspeaking =>
    cases Option.some.inj (hspeaking.job.symm.trans hjob)
    split at hs
    next =>
      cases Option.some.inj hs
      exact hspeaking.sentenceStep hshows
    next =>
      cases Option.some.inj hs
      exact hspeaking.remainderStep hshows
    next => cases hs
  | waiting shown other hshows hspoken hother hpoint hactive =>
    cases Option.some.inj (hother.symm.trans hjob)
    rw [hpoint] at hs
    cases hs
  | ended hspoken hnone hactive hdone =>
    rw [hnone] at hjob
    cases hjob

theorem Phase.loopEnds (h : Phase s) (hs : step s .loopEnds = some t) (hdone : s.reply = .done) :
    Phase t := by
  obtain ⟨loop, hjob, hs⟩ := Option.bind_eq_some_iff.mp hs
  obtain ⟨hwaiting, hs⟩ := Option.ite_none_right_eq_some.mp hs
  cases Option.some.inj hs
  cases h with
  | unstarted shown hshows hunstarted =>
    rw [hunstarted.job] at hjob
    cases hjob
  | speaking shown a other hshows hspeaking =>
    cases Option.some.inj (hspeaking.job.symm.trans hjob)
    exact absurd hwaiting hspeaking.going
  | waiting shown other hshows hspoken hother hpoint hactive =>
    exact .ended { hspoken with } rfl rfl hdone
  | ended hspoken hnone hactive _ =>
    rw [hnone] at hjob
    cases hjob

theorem Phase.completionWait (h : Phase s) (hs : step s .completionWait = some t) : Phase t := by
  obtain ⟨hready, hs⟩ := Option.ite_none_right_eq_some.mp hs
  rw [Bool.and_eq_true, Bool.and_eq_true] at hready
  obtain ⟨⟨hawaits, -⟩, hidle⟩ := hready
  cases Option.some.inj hs
  cases h with
  | unstarted shown hshows hunstarted =>
    have hdone := hunstarted.awaits hawaits
    refine .unstarted shown ⟨hshows.bubble, fun hne => absurd hdone hne,
      fun _ hne => absurd hdone hne, hshows.flagged⟩ { hunstarted with awaits := ?_ }
    exact fun _ => hdone
  | speaking shown a loop hshows hspeaking =>
    exact absurd (hidle.symm.trans (ttsIdle_of_active hspeaking.active)) (by decide)
  | waiting shown loop hshows hspoken hjob hpoint hactive =>
    exact absurd (hidle.symm.trans (ttsIdle_of_active hactive)) (by decide)
  | ended hspoken hnone hactive hdone => exact .ended { hspoken with } hnone hactive hdone

theorem phase_step (h : Phase s) (hok : s.endsAfterCheck e) (hs : step s e = some t) : Phase t := by
  cases e with
  | stream text => exact h.text rfl hs
  | setBubble => exact h.text rfl hs
  | complete => exact h.text rfl hs
  | setFinalBubble => exact h.text rfl hs
  | checkSentence => exact h.checkSentence hs
  | checkTTS restarts => exact h.checkTTS hs
  | loop => exact h.loopStep hs
  | loopEnds => exact h.loopEnds hs (hok rfl)
  | completionWait => exact h.completionWait hs

theorem phase_start : Phase start := by
  refine .unstarted [] ⟨rfl, fun _ => List.prefix_rfl, fun _ _ => rfl, fun hflag => by cases hflag⟩
    ⟨rfl, rfl, rfl, rfl, (fun hawaits => by cases hawaits), fun hdone => by cases hdone⟩

theorem Phase.stable (h : Phase s) : s.Stable := by
  unfold Stable
  cases h with
  | unstarted shown hshows hunstarted =>
    rw [hunstarted.slices]
    exact List.nil_prefix
  | speaking shown a loop hshows hspeaking =>
    obtain ⟨b, rfl⟩ := hspeaking.before
    rw [sourceText_of_nonblank hspeaking.nonblank, hshows.bubble,
      removeImEndTokenOnly_append hspeaking.cut, hspeaking.slices]
    exact List.prefix_append _ _
  | waiting shown loop hshows hspoken hjob hpoint hactive =>
    rw [sourceText_of_nonblank hspoken.nonblank, hspoken.slices]
  | ended hspoken hnone hactive hdone =>
    rw [sourceText_of_nonblank hspoken.nonblank, hspoken.slices]

theorem Phase.speaksReply (h : Phase s) (hend : s.Finished) : s.SpeaksReply := by
  cases h with
  | unstarted shown hshows hunstarted =>
    exact ⟨.inr ⟨hunstarted.blank hend.1, hunstarted.slices⟩,
      by rw [hunstarted.slices, hunstarted.spoken]; rfl⟩
  | speaking shown a loop hshows hspeaking =>
    have hjob := hspeaking.job
    rw [hend.2] at hjob
    cases hjob
  | waiting shown loop hshows hspoken hjob hpoint hactive =>
    rw [hend.2] at hjob
    cases hjob
  | ended hspoken hnone hactive hdone => exact ⟨.inl hspoken.slices, hspoken.spoken⟩

/-- A TTS job ended too early: the reply `base` is spoken, and the LLM job goes on to its check, or a
second job starts again from the beginning of the text. -/
inductive Again (base : Text) (s : StreamingSpeech) : Prop where
  | early : (s.reply = .complete ∨ s.reply = .final) → s.streamingTTSJob = none →
      s.isStreamingTTSActive = false → s.slices.flatten = base →
      (s.finalBubbleText = base ∨ s.finalBubbleText = []) →
      (removeImEndTokenOnly s.fullResponseText = base ∨ s.fullResponseText = []) → Again base s
  | speaking (loop : SpeechLoop) : s.reply = .done → s.streamingTTSJob = some loop →
      s.isStreamingTTSActive = true → s.finalBubbleText = base →
      (loop.point ≠ .waiting → s.slices.flatten.length = base.length + loop.lastSentToTTSIndex) →
      (loop.point = .waiting → base.length < s.slices.flatten.length) → Again base s
  | spent : s.reply = .done → s.streamingTTSJob = none → s.isStreamingTTSActive = false →
      s.slices ≠ [] → s.slices.flatten ≠ s.finalBubbleText → Again base s

theorem ne_nil_of_nonblank {text : Text} (h : isBlank text = false) : text ≠ [] := by
  rintro rfl
  cases h

/-- With the LLM job past the end of its stream only these steps are left. -/
theorem lateStep (hstreaming : s.reply.isStreaming = false) (hs : step s e = some t) :
    e = .setFinalBubble ∨ (∃ restarts, e = .checkTTS restarts) ∨ e = .loop ∨ e = .loopEnds ∨
      e = .completionWait := by
  have hnot : ∀ point : ReplyPoint, point.isStreaming = true → s.reply ≠ point := by
    intro point hpoint hreply
    rw [hreply, hpoint] at hstreaming
    cases hstreaming
  cases e with
  | stream text => exact absurd (Option.ite_none_right_eq_some.mp hs).1 (hnot _ rfl)
  | setBubble => exact absurd (Option.ite_none_right_eq_some.mp hs).1 (hnot _ rfl)
  | checkSentence => exact absurd (Option.ite_none_right_eq_some.mp hs).1 (hnot _ rfl)
  | complete => exact absurd (Option.ite_none_right_eq_some.mp hs).1 (hnot _ rfl)
  | setFinalBubble => exact .inl rfl
  | checkTTS restarts => exact .inr (.inl ⟨restarts, rfl⟩)
  | loop => exact .inr (.inr (.inl rfl))
  | loopEnds => exact .inr (.inr (.inr (.inl rfl)))
  | completionWait => exact .inr (.inr (.inr (.inr rfl)))

variable {base : Text}

theorem Again.earlyStep (hbase : isBlank base = false)
    (hreply : s.reply = .complete ∨ s.reply = .final) (hjob : s.streamingTTSJob = none)
    (hactive : s.isStreamingTTSActive = false) (hslices : s.slices.flatten = base)
    (hbubble : s.finalBubbleText = base ∨ s.finalBubbleText = [])
    (hfull : removeImEndTokenOnly s.fullResponseText = base ∨ s.fullResponseText = [])
    (hs : step s e = some t) : Again base t := by
  have hidle : s.ttsIdle = true := by simp [ttsIdle, hjob, hactive]
  have hstreaming : s.reply.isStreaming = false := by
    rcases hreply with hreply | hreply <;> rw [hreply] <;> rfl
  rcases lateStep hstreaming hs with rfl | ⟨restarts, rfl⟩ | rfl | rfl | rfl
  · obtain ⟨-, hs⟩ := Option.ite_none_right_eq_some.mp hs
    cases Option.some.inj hs
    refine .early (.inr rfl) hjob hactive hslices ?_ hfull
    rcases hfull with hkept | hcleared
    · exact .inl hkept
    · exact .inr (congrArg removeImEndTokenOnly hcleared)
  · obtain ⟨-, hs⟩ := Option.ite_none_right_eq_some.mp hs
    have hs := Option.some.inj hs
    rcases hbubble with hkept | hcleared
    · have hnonblank : isBlank s.finalBubbleText = false := hkept ▸ hbase
      have hstarted : s.startStreamingTTS = { s with
          isStreamingTTSActive := true
          streamingTTSJob := some ⟨0, true, .sentence⟩ } := by
        unfold startStreamingTTS
        rw [hjob, hactive]
        rfl
      rw [hidle, hnonblank] at hs
      subst hs
      rw [Bool.not_false, Bool.and_true, if_pos rfl, hstarted]
      exact .speaking ⟨0, true, .sentence⟩ rfl rfl rfl hkept (fun _ => by rw [hslices]; rfl)
        fun hwaiting => by cases hwaiting
    · have hne : s.slices ≠ [] := by
        intro hnil
        rw [hnil] at hslices
        exact ne_nil_of_nonblank hbase hslices.symm
      have hover : s.slices.flatten ≠ ([] : Text) := hslices ▸ ne_nil_of_nonblank hbase
      have hblank : isBlank s.finalBubbleText = true := by rw [hcleared]; rfl
      rw [hidle, hblank] at hs
      cases restarts with
      | true =>
        subst hs
        exact .spent rfl rfl rfl hne (hcleared.symm ▸ hover)
      | false =>
        subst hs
        exact .spent rfl hjob hactive hne (hcleared.symm ▸ hover)
  · obtain ⟨loop, hloop, -⟩ := Option.bind_eq_some_iff.mp hs
    rw [hjob] at hloop
    cases hloop
  · obtain ⟨loop, hloop, -⟩ := Option.bind_eq_some_iff.mp hs
    rw [hjob] at hloop
    cases hloop
  · obtain ⟨-, hs⟩ := Option.ite_none_right_eq_some.mp hs
    cases Option.some.inj hs
    exact .early hreply hjob hactive hslices hbubble (.inr rfl)

/-- The second job takes text that is taken already. -/
theorem Again.loopStep (hbase : isBlank base = false) (hdone : s.reply = .done)
    (hactive : s.isStreamingTTSActive = true) (hbubble : s.finalBubbleText = base)
    (hgoing : loop.point ≠ .waiting →
      s.slices.flatten.length = base.length + loop.lastSentToTTSIndex)
    (hs : (match loop.point with
      | .sentence => some (s.speakSentence loop)
      | .completion => some (s.speakRemainder loop)
      | .waiting => none) = some t) : Again base t := by
  have hsource : s.sourceText = base := by
    rw [sourceText_of_nonblank (by rw [hbubble]; exact hbase), hbubble]
  have hpos : 0 < base.length := List.length_pos_iff.mpr (ne_nil_of_nonblank hbase)
  cases hpoint : loop.point with
  | sentence =>
    rw [hpoint] at hs
    cases Option.some.inj hs
    have hlen := hgoing (by rw [hpoint]; decide)
    have hidle : Again base
        { s with streamingTTSJob := some { loop with point := .completion } } :=
      .speaking { loop with point := .completion } hdone rfl hactive hbubble (fun _ => hlen)
        fun hwaiting => by cases hwaiting
    unfold speakSentence
    dsimp only
    split
    next =>
      split
      next k hk =>
        obtain ⟨hbound, -⟩ := List.findIdx?_eq_some_iff_getElem.mp hk
        refine .speaking _ hdone rfl hactive hbubble (fun _ => ?_) fun hwaiting => by cases hwaiting
        have htaken := congrArg List.length (flatten_speakSlice s loop.isFirstChunk
          ((s.sourceText.drop loop.lastSentToTTSIndex).take (k + 1)))
        rw [List.length_append, hlen, List.length_take_of_le hbound, Nat.add_assoc] at htaken
        exact htaken
      next => exact hidle
    next => exact hidle
  | completion =>
    rw [hpoint] at hs
    cases Option.some.inj hs
    have hlen := hgoing (by rw [hpoint]; decide)
    unfold speakRemainder
    split
    next =>
      dsimp only
      rw [hsource]
      split
      next hrest =>
        refine .speaking _ hdone rfl hactive hbubble (fun hne => absurd rfl hne) fun _ => ?_
        rw [flatten_speakSlice, List.length_append, hlen, List.length_drop]
        omega
      next hall =>
        refine .speaking _ hdone rfl hactive hbubble (fun hne => absurd rfl hne) fun _ => ?_
        show base.length < s.slices.flatten.length
        omega
    next =>
      exact .speaking _ hdone rfl hactive hbubble (fun _ => hlen) fun hwaiting => by cases hwaiting
  | waiting =>
    rw [hpoint] at hs
    cases hs

theorem again_step (hbase : isBlank base = false) (h : Again base s) (hs : step s e = some t) :
    Again base t := by
  cases h with
  | early hreply hjob hactive hslices hbubble hfull =>
    exact Again.earlyStep hbase hreply hjob hactive hslices hbubble hfull hs
  | speaking loop hdone hjob hactive hbubble hgoing hwaiting =>
    have hnot : ∀ point : ReplyPoint, point ≠ .done → s.reply ≠ point := by
      intro point hpoint hreply
      exact hpoint (hreply.symm.trans hdone)
    rcases lateStep (by rw [hdone]; rfl) hs with rfl | ⟨restarts, rfl⟩ | rfl | rfl | rfl
    · exact absurd (Option.ite_none_right_eq_some.mp hs).1 (hnot _ (by decide))
    · exact absurd (Option.ite_none_right_eq_some.mp hs).1 (hnot _ (by decide))
    · obtain ⟨other, hother, hs⟩ := Option.bind_eq_some_iff.mp hs
      cases Option.some.inj (hjob.symm.trans hother)
      exact Again.loopStep hbase hdone hactive hbubble hgoing hs
    · obtain ⟨other, hother, hs⟩ := Option.bind_eq_some_iff.mp hs
      cases Option.some.inj (hjob.symm.trans hother)
      obtain ⟨hpoint, hs⟩ := Option.ite_none_right_eq_some.mp hs
      have hlonger := hwaiting hpoint
      cases Option.some.inj hs
      refine .spent hdone rfl rfl (fun hnil => ?_) fun hsame => ?_
      · have hnil : s.slices = [] := hnil
        rw [hnil] at hlonger
        exact absurd hlonger (Nat.not_lt_zero _)
      · have hsame : s.slices.flatten = base := hsame.trans hbubble
        rw [hsame] at hlonger
        exact absurd hlonger (Nat.lt_irrefl _)
    · obtain ⟨hready, -⟩ := Option.ite_none_right_eq_some.mp hs
      rw [ttsIdle_of_active hactive, Bool.and_false] at hready
      cases hready
  | spent hdone hjob hactive hne hover =>
    have hnot : ∀ point : ReplyPoint, point ≠ .done → s.reply ≠ point := by
      intro point hpoint hreply
      exact hpoint (hreply.symm.trans hdone)
    rcases lateStep (by rw [hdone]; rfl) hs with rfl | ⟨restarts, rfl⟩ | rfl | rfl | rfl
    · exact absurd (Option.ite_none_right_eq_some.mp hs).1 (hnot _ (by decide))
    · exact absurd (Option.ite_none_right_eq_some.mp hs).1 (hnot _ (by decide))
    · obtain ⟨loop, hloop, -⟩ := Option.bind_eq_some_iff.mp hs
      rw [hjob] at hloop
      cases hloop
    · obtain ⟨loop, hloop, -⟩ := Option.bind_eq_some_iff.mp hs
      rw [hjob] at hloop
      cases hloop
    · obtain ⟨-, hs⟩ := Option.ite_none_right_eq_some.mp hs
      cases Option.some.inj hs
      exact .spent hdone hjob hactive hne hover

theorem Again.not_speaksReply (h : Again base s) (hend : s.Finished) : ¬ s.SpeaksReply := by
  rintro ⟨hslices, -⟩
  cases h with
  | early hreply _ _ _ _ _ =>
    rcases hreply with hreply | hreply <;> rw [hend.1] at hreply <;> cases hreply
  | speaking loop _ hjob _ _ _ _ =>
    rw [hend.2] at hjob
    cases hjob
  | spent _ _ _ hne hover =>
    rcases hslices with hsame | ⟨-, hnil⟩
    · exact hover hsame
    · exact hne hnil

/-- A TTS job that ends before the check leaves the way to a second one. -/
theorem Phase.again (h : Phase s) (hearly : ¬ s.endsAfterCheck e) (hs : step s e = some t) :
    ∃ base, isBlank base = false ∧ Again base t := by
  obtain ⟨rfl, hundone⟩ := Classical.not_imp.mp hearly
  obtain ⟨loop, hjob, hs⟩ := Option.bind_eq_some_iff.mp hs
  obtain ⟨hwaiting, hs⟩ := Option.ite_none_right_eq_some.mp hs
  cases Option.some.inj hs
  cases h with
  | unstarted shown hshows hunstarted =>
    rw [hunstarted.job] at hjob
    cases hjob
  | speaking shown a other hshows hspeaking =>
    cases Option.some.inj (hspeaking.job.symm.trans hjob)
    exact absurd hwaiting hspeaking.going
  | waiting shown other hshows hspoken hother hpoint hactive =>
    have hreply := ReplyPoint.isStreaming_of_ne hspoken.complete hundone
    have hlevel : s.fullResponseText = shown := by
      refine hshows.level ?_ hundone
      rcases hreply with hreply | hreply <;> rw [hreply] <;> decide
    refine ⟨s.finalBubbleText, hspoken.nonblank, .early hreply rfl rfl hspoken.slices (.inl rfl)
      (.inl ?_)⟩
    rw [hshows.bubble, ← hlevel]
  | ended hspoken hnone hactive _ =>
    rw [hnone] at hjob
    cases hjob

/-- In a turn that is over, what the loop took was never changed and is spoken once, in order and as
a whole, exactly when no TTS job ended before the check of the LLM job. -/
theorem speaksReply_iff_endsAfterCheck {events : List Event}
    (hr : Machine.run step start events = some s) (hend : s.Finished) :
    Machine.Always step Stable start events ∧ s.SpeaksReply ↔
      Machine.Meets step endsAfterCheck start events := by
  have hrun := Machine.run_meets_or (I := Phase)
    (J := fun u => ∃ base, isBlank base = false ∧ Again base u)
    (fun u e v hu hok hv => phase_step hu hok hv) (fun u e v hu hearly hv => hu.again hearly hv)
    (fun u e v ⟨base, hbase, hu⟩ hv => ⟨base, hbase, again_step hbase hu hv⟩) phase_start hr
  constructor
  · rintro ⟨-, hspeaks⟩
    rcases hrun with ⟨hmeets, -⟩ | ⟨-, base, -, hagain⟩
    · exact hmeets
    · exact absurd hspeaks (hagain.not_speaksReply hend)
  · intro hmeets
    rcases hrun with ⟨-, hphase⟩ | ⟨hnot, -⟩
    · refine ⟨Machine.always_of_meets (fun u hu => hu.stable) ?_ phase_start hmeets,
        hphase.speaksReply hend⟩
      exact fun u e v hu hok hv => phase_step hu hok hv
    · exact absurd hmeets hnot

/-- A reply that is spoken once: a sentence while it streams, and the rest at its end. -/
def spokenReply : List Event :=
  [.stream "It is a fine day.".toList, .stream "It is a fine day. Shall we go out?".toList, .setBubble,
    .checkSentence, .loop, .loop, .complete, .setFinalBubble, .checkTTS true, .loop, .loop, .loopEnds]

theorem spokenReply_speaks :
    ∃ s, Machine.run step start spokenReply = some s ∧ s.SpeaksReply := by
  have hrun : (Machine.run step start spokenReply).any (fun s => s.Finished) = true := by
    decide +kernel
  obtain ⟨s, hr, hend⟩ := (Option.any_eq_true _ _).mp hrun
  have hmeets : Machine.Meets step endsAfterCheck start spokenReply := by decide +kernel
  have hfinished : s.Finished := of_decide_eq_true hend
  exact ⟨s, hr, ((speaksReply_iff_endsAfterCheck hr hfinished).mpr hmeets).2⟩

/-- The same reply with the loop at its end while the UI gets the final text. -/
def spokenTwice : List Event :=
  [.stream "It is a fine day.".toList, .stream "It is a fine day. Shall we go out?".toList, .setBubble,
    .checkSentence, .loop, .loop, .complete, .setFinalBubble, .loop, .loop, .loopEnds,
    .checkTTS true, .loop, .loop, .loopEnds]

theorem reply_spoken_twice : ∃ s, Machine.run step start spokenTwice = some s ∧ s.Finished ∧
    ¬ s.SpeaksReply := by
  have hrun : (Machine.run step start spokenTwice).any (fun s => s.Finished ∧
      s.slices.flatten ≠ s.finalBubbleText ∧ s.slices ≠ []) = true := by decide +kernel
  obtain ⟨s, hr, htwice⟩ := (Option.any_eq_true _ _).mp hrun
  obtain ⟨hend, hne, hread⟩ := of_decide_eq_true htwice
  exact ⟨s, hr, hend, fun hspeaks => hspeaks.1.elim hne fun hblank => hread hblank.2⟩

theorem speakSentence_point (s : StreamingSpeech) (loop : SpeechLoop) :
    ∃ next, (s.speakSentence loop).streamingTTSJob = some next ∧ next.point = .completion ∧
      (s.speakSentence loop).reply = s.reply ∧
      (s.speakSentence loop).isLLMResponseComplete = s.isLLMResponseComplete := by
  unfold speakSentence
  dsimp only
  split
  next =>
    split
    next =>
      exact ⟨_, rfl, rfl, rfl, rfl⟩
    next => exact ⟨_, rfl, rfl, rfl, rfl⟩
  next => exact ⟨_, rfl, rfl, rfl, rfl⟩

theorem speakRemainder_point (loop : SpeechLoop) (hflag : s.isLLMResponseComplete = true) :
    ∃ next, (s.speakRemainder loop).streamingTTSJob = some next ∧ next.point = .waiting ∧
      (s.speakRemainder loop).reply = s.reply := by
  unfold speakRemainder
  rw [if_pos hflag]
  dsimp only
  split
  next =>
    exact ⟨_, rfl, rfl, rfl⟩
  next => exact ⟨_, rfl, rfl, rfl⟩

theorem finishes_waiting (hdone : s.reply = .done) (hjob : s.streamingTTSJob = some loop)
    (hpoint : loop.point = .waiting) : ∃ t, Machine.run step s [.loopEnds] = some t ∧ t.Finished := by
  refine ⟨{ s with
    isStreamingTTSActive := false
    streamingTTSJob := none
    awaitsCompletion := true }, ?_, hdone, rfl⟩
  simp [Machine.run, step, hjob, hpoint]

theorem finishes_completion (hdone : s.reply = .done) (hflag : s.isLLMResponseComplete = true)
    (hjob : s.streamingTTSJob = some loop) (hpoint : loop.point = .completion) :
    ∃ t, Machine.run step s [.loop, .loopEnds] = some t ∧ t.Finished := by
  obtain ⟨next, hnext, hwaiting, hreply⟩ := speakRemainder_point loop hflag
  obtain ⟨t, hr, hend⟩ := finishes_waiting (hreply.trans hdone) hnext hwaiting
  refine ⟨t, Machine.run_cons_iff.mpr ⟨s.speakRemainder loop, ?_, hr⟩, hend⟩
  simp [step, hjob, hpoint]

/-- After the check of the LLM job the loop comes to its end by its own steps. -/
theorem Phase.finishes (h : Phase s) (hdone : s.reply = .done)
    (hflag : s.isLLMResponseComplete = true) :
    ∃ events t, Machine.run step s events = some t ∧ t.Finished := by
  cases h with
  | unstarted shown hshows hunstarted => exact ⟨[], s, rfl, hdone, hunstarted.job⟩
  | speaking shown a loop hshows hspeaking =>
    cases hpoint : loop.point with
    | sentence =>
      obtain ⟨next, hnext, hcompletion, hreply, hkept⟩ := s.speakSentence_point loop
      obtain ⟨t, hr, hend⟩ := finishes_completion (hreply.trans hdone) (hkept.trans hflag) hnext
        hcompletion
      refine ⟨[.loop, .loop, .loopEnds], t, Machine.run_cons_iff.mpr ⟨s.speakSentence loop, ?_, hr⟩,
        hend⟩
      simp [step, hspeaking.job, hpoint]
    | completion => exact ⟨_, finishes_completion hdone hflag hspeaking.job hpoint⟩
    | waiting => exact absurd hpoint hspeaking.going
  | waiting shown loop hshows hspoken hjob hpoint hactive =>
    exact ⟨_, finishes_waiting hdone hjob hpoint⟩
  | ended hspoken hnone hactive _ => exact ⟨[], s, rfl, hdone, hnone⟩

end StreamingSpeech

end HeyNilo
