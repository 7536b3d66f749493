import HeyNilo.LlamaBridge
import HeyNilo.Machine

namespace HeyNilo.LlamaBridge

open Machine

/-- `isLoaded` tells whether the native side holds a model with its context, and `modelPath` which. -/
def Truthful (s : LlamaBridge) : Prop :=
  (s.isLoaded = true ↔ s.native.loadedModel.isSome = true) ∧
    (s.isLoaded = true → s.modelPath = s.native.loadedModel)

instance (s : LlamaBridge) : Decidable (Truthful s) := inferInstanceAs (Decidable ((_ ↔ _) ∧ _))

/-- No load over a loaded model fails: the old one is freed first and its path kept. -/
def keepsPath (s : LlamaBridge) : Event → Bool
  | .loadModel _ result => s.currentState ≠ .ready || result = .loaded || s.modelPath.isNone
  | _ => true

/-- The invariant behind `Truthful`: the bridge's path is that of the native model. -/
def PathAgrees (s : LlamaBridge) : Prop := s.native.loadedModel = s.modelPath

variable {s t : LlamaBridge}

theorem isLoaded_eq (s : LlamaBridge) : s.isLoaded = s.modelPath.isSome := by
  simp [isLoaded, NativeLlama.isModelLoaded]

theorem PathAgrees.truthful (h : PathAgrees s) : Truthful s := by
  unfold Truthful
  rw [isLoaded_eq, h]
  exact ⟨Iff.rfl, fun _ => rfl⟩

theorem PathAgrees.of_eq (h : PathAgrees s) (hn : t.native.loadedModel = s.native.loadedModel)
    (hp : t.modelPath = s.modelPath) : PathAgrees t := by
  unfold PathAgrees
  rw [hn, hp]
  exact h

theorem loadedModel_addToHistory (n : NativeLlama) (role content : Bytes) :
    (n.addToHistory role content).loadedModel = n.loadedModel := by
  cases hstate : n.state with
  | none => simp [NativeLlama.addToHistory, NativeLlama.loadedModel, hstate]
  | some state => simp [NativeLlama.addToHistory, NativeLlama.loadedModel, hstate]

theorem loadedModel_clearContext (n : NativeLlama) (acquired : Bool) :
    (n.clearContext acquired).loadedModel = n.loadedModel := by
  cases hstate : n.state with
  | none => simp [NativeLlama.clearContext, NativeLlama.loadedModel, hstate]
  | some state =>
    simp only [NativeLlama.clearContext, NativeLlama.loadedModel, hstate, Option.map_some,
      Option.bind_some]
    split <;> rfl

theorem buildPrompt_cases {n u : NativeLlama} {prompt : Bytes} (h : n.buildPrompt prompt = some u) :
    ∃ state, n.state = some state ∧
      u = { n with built := n.built ++ [buildMessages n.systemPrompt state.history prompt] } := by
  obtain ⟨state, hstate, hbuilt⟩ := Option.bind_eq_some_iff.mp h
  split at hbuilt
  next => exact ⟨state, hstate, (Option.some.inj hbuilt).symm⟩
  next => cases hbuilt

theorem loadModel_loadedModel (n : NativeLlama) (path : Text) (result : LoadResult) :
    (n.loadModel path result).1.loadedModel = if result = .loaded then some path else none := by
  cases result <;> rfl

theorem init_agrees (h : PathAgrees s) (failure : Option Text) : PathAgrees (s.init failure) := by
  unfold init
  split
  next => exact h
  next =>
    cases failure with
    | none => exact h.of_eq (by simp [NativeLlama.init, NativeLlama.loadedModel]) (by simp)
    | some message => exact h.of_eq (by simp) (by simp)

theorem loadModel_agrees (h : PathAgrees s) {path : Text} {result : LoadResult}
    (hok : s.keepsPath (.loadModel path result) = true) :
    PathAgrees (s.loadModel path result) := by
  unfold loadModel
  split
  next => exact h.of_eq (by simp) (by simp)
  next hready =>
    have hloaded := loadModel_loadedModel s.native path result
    cases result with
    | loaded => simp [PathAgrees, NativeLlama.loadModel, NativeLlama.loadedModel]
    | noPath | noFile | notParsed | noContext =>
      -- a failed load leaves nothing, which agrees with the bridge when it had no path
      have hnone : s.modelPath = none := by simpa [keepsPath, hready] using hok
      simp [PathAgrees, NativeLlama.loadModel, NativeLlama.loadedModel, hnone]

theorem launchGeneration_agrees (h : PathAgrees s) (prompt : Bytes) (maxTokens : Nat) :
    PathAgrees (s.launchGeneration prompt maxTokens) := by
  unfold launchGeneration
  split
  next => exact h.of_eq (by simp) (by simp)
  next => exact h.of_eq (by simp) (by simp)

theorem step_agrees {e : Event} (h : PathAgrees s) (hok : s.keepsPath e = true)
    (hs : s.step e = some t) : PathAgrees t := by
  cases e with
  | init failure => cases Option.some.inj hs; exact init_agrees h failure
  | recoverFromError failure =>
    cases Option.some.inj hs
    unfold recoverFromError
    split
    next => exact h
    next => exact init_agrees (h.of_eq (by simp) (by simp)) failure
  | loadModel path result => cases Option.some.inj hs; exact loadModel_agrees h hok
  | unloadModel => cases Option.some.inj hs; rfl
  | generate prompt => cases Option.some.inj hs; exact launchGeneration_agrees h prompt 256
  | generateWithMaxTokens prompt maxTokens =>
    cases Option.some.inj hs
    exact launchGeneration_agrees h prompt maxTokens
  | stopGeneration =>
    cases Option.some.inj hs
    exact h.of_eq (by simp [stopGeneration, cancelGenerationJob])
      (by simp [stopGeneration, cancelGenerationJob])
  | release =>
    cases Option.some.inj hs
    simp [PathAgrees, release, NativeLlama.release, NativeLlama.unloadModel, NativeLlama.loadedModel]
  | setSystemPrompt prompt => cases Option.some.inj hs; exact h
  | addToHistory role content =>
    cases Option.some.inj hs
    exact h.of_eq (loadedModel_addToHistory _ _ _) rfl
  | clearContext acquired =>
    cases Option.some.inj hs
    exact h.of_eq (loadedModel_clearContext _ _) rfl
  | start i =>
    obtain ⟨job, -, hs⟩ := Option.bind_eq_some_iff.mp hs
    split at hs
    next =>
      split at hs
      next => cases Option.some.inj hs; exact h
      next => cases Option.some.inj hs; exact h
    next => cases hs
  | buildPrompt i =>
    obtain ⟨job, -, hs⟩ := Option.bind_eq_some_iff.mp hs
    split at hs
    next =>
      obtain ⟨native, hnative, rfl⟩ := Option.map_eq_some_iff.mp hs
      obtain ⟨state, -, rfl⟩ := buildPrompt_cases hnative
      exact h
    next => cases hs
  | finish i =>
    obtain ⟨job, -, hs⟩ := Option.bind_eq_some_iff.mp hs
    split at hs
    next => cases hs
    next => cases Option.some.inj hs; exact h.of_eq (by simp) (by simp)

/-- A failed load over a loaded model leaves the bridge with the path of a model that is gone. -/
theorem not_truthful_of_load {e : Event} (hok : s.keepsPath e ≠ true) (hs : s.step e = some t) :
    ¬ Truthful t := by
  cases e with
  | loadModel path result =>
    cases Option.some.inj hs
    have hbroken : s.keepsPath (.loadModel path result) = false := eq_false_of_ne_true hok
    obtain ⟨⟨hready, hresult⟩, hpath⟩ : (s.currentState = .ready ∧ result ≠ .loaded) ∧
        s.modelPath.isSome = true := by
      simpa [keepsPath, Option.isSome_iff_ne_none] using hbroken
    rintro ⟨hiff, -⟩
    cases result with
    | loaded => exact hresult rfl
    | noPath | noFile | notParsed | noContext =>
      rw [isLoaded_eq] at hiff
      simp [loadModel, hready, NativeLlama.loadModel, NativeLlama.loadedModel] at hiff
      rw [hiff] at hpath
      cases hpath
  | _ => exact absurd rfl hok

/-- Along a run of a new bridge `isLoaded` and `modelPath` are truthful exactly when no load fails
over a model that the bridge holds. -/
theorem truthful_iff {es : List Event} {s : LlamaBridge} (hr : run step new es = some s) :
    Always step Truthful new es ↔ Meets step (fun s e => s.keepsPath e = true) new es := by
  refine always_iff_meets (I := PathAgrees) (fun s h => h.truthful) ?_ ?_ rfl hr
  · intro s e t h hok hs
    exact step_agrees h hok hs
  · intro s e t _ hok hs
    exact not_truthful_of_load hok hs

/-- A load that fails, one that succeeds, another one over it, and an unload before the next failure. -/
def cleanLoads : List Event :=
  [.init none, .loadModel "a.gguf".toList .noFile, .recoverFromError none,
    .loadModel "a.gguf".toList .loaded, .loadModel "b.gguf".toList .loaded, .unloadModel,
    .loadModel "c.gguf".toList .noContext, .release]

theorem truthful_cleanLoads : Always step Truthful new cleanLoads := by
  obtain ⟨s, hs⟩ : ∃ s, run step new cleanLoads = some s := ⟨_, rfl⟩
  exact (truthful_iff hs).mpr (by decide +kernel)

/-- The second load does not find its file; the bridge still says that the first model is loaded. -/
theorem path_of_freed_model : ¬ Always step Truthful new
    [.init none, .loadModel "a.gguf".toList .loaded, .loadModel "b.gguf".toList .noFile] := by
  intro h
  obtain ⟨s, hs, htruthful⟩ : ∃ s, run step new [.init none, .loadModel "a.gguf".toList .loaded,
      .loadModel "b.gguf".toList .noFile] = some s ∧ ¬ Truthful s := ⟨_, rfl, by decide +kernel⟩
  exact htruthful (always_run h hs)

/-- Every message list built after the first `n` has `prompt` as its leading system message, and so
has the ChatML text that stands in for a template. -/
def LeadsWith (prompt : Bytes) (n : Nat) (s : LlamaBridge) : Prop :=
  ∀ messages ∈ s.native.built.drop n,
    messages.head? = some (ascii "system", prompt) ∧
      ∃ rest, (messages.map chatMlEntry).flatten = chatMlEntry (ascii "system", prompt) ++ rest

/-- The prompt is built over a history that itself begins with the system message. -/
def historyLeads (prompt : Bytes) (s : LlamaBridge) : Event → Bool
  | .buildPrompt _ => (s.native.state.bind fun state => state.history.head?) = some (ascii "system", prompt)
  | _ => true

theorem chatMl_of_head {messages : List (Bytes × Bytes)} {entry : Bytes × Bytes}
    (h : messages.head? = some entry) :
    ∃ rest, (messages.map chatMlEntry).flatten = chatMlEntry entry ++ rest := by
  cases messages with
  | nil => cases h
  | cons first rest =>
    cases Option.some.inj h
    exact ⟨(rest.map chatMlEntry).flatten, rfl⟩

theorem head_buildMessages {history : List (Bytes × Bytes)} {prompt systemPrompt : Bytes} :
    (buildMessages [] history prompt).head? = some (ascii "system", systemPrompt) ↔
      history.head? = some (ascii "system", systemPrompt) := by
  cases history with
  | nil =>
    have huser : ascii "user" ≠ ascii "system" := by decide +kernel
    simp [buildMessages, huser]
  | cons entry history => simp [buildMessages]

/-- What one step does to the native prompt and to the message lists. -/
theorem step_built {e : Event} (hs : s.step e = some t) :
    t.native.systemPrompt = s.native.systemPrompt ∧
      (t.native.built = s.native.built ∨
        ∃ i state prompt, e = .buildPrompt i ∧ s.native.state = some state ∧
          t.native.built =
            s.native.built ++ [buildMessages s.native.systemPrompt state.history prompt]) := by
  have hinit (u : LlamaBridge) (failure : Option Text) :
      (u.init failure).native.systemPrompt = u.native.systemPrompt ∧
        (u.init failure).native.built = u.native.built := by
    unfold init
    split
    next => exact ⟨rfl, rfl⟩
    next => cases failure <;> simp [NativeLlama.init]
  have hlaunch (prompt : Bytes) (maxTokens : Nat) :
      (s.launchGeneration prompt maxTokens).native = s.native := by
    unfold launchGeneration
    split
    next => simp
    next => simp
  cases e with
  | init failure =>
    cases Option.some.inj hs
    exact ⟨(hinit s failure).1, .inl (hinit s failure).2⟩
  | recoverFromError failure =>
    cases Option.some.inj hs
    unfold recoverFromError
    split
    next => exact ⟨rfl, .inl rfl⟩
    next =>
      obtain ⟨hprompt, hbuilt⟩ := hinit ({ s with lastError := none }.updateState .uninitialized) failure
      exact ⟨by simpa using hprompt, .inl (by simpa using hbuilt)⟩
  | loadModel path result =>
    cases Option.some.inj hs
    unfold loadModel
    split
    next => exact ⟨by simp, .inl (by simp)⟩
    next =>
      dsimp only
      cases result <;> exact ⟨by simp [NativeLlama.loadModel], .inl (by simp [NativeLlama.loadModel])⟩
  | unloadModel => cases Option.some.inj hs; exact ⟨rfl, .inl rfl⟩
  | generate prompt =>
    cases Option.some.inj hs
    rw [generate, hlaunch]
    exact ⟨rfl, .inl rfl⟩
  | generateWithMaxTokens prompt maxTokens =>
    cases Option.some.inj hs
    rw [generateWithMaxTokens, hlaunch]
    exact ⟨rfl, .inl rfl⟩
  | stopGeneration =>
    cases Option.some.inj hs
    have hnative : s.stopGeneration.native = s.native := by simp [stopGeneration, cancelGenerationJob]
    rw [hnative]
    exact ⟨rfl, .inl rfl⟩
  | release =>
    cases Option.some.inj hs
    have hnative : s.release.native = s.native.release := by
      simp [release, stopGeneration, cancelGenerationJob]
    rw [hnative]
    exact ⟨rfl, .inl rfl⟩
  | setSystemPrompt prompt => cases Option.some.inj hs; exact ⟨rfl, .inl rfl⟩
  | addToHistory role content => cases Option.some.inj hs; exact ⟨rfl, .inl rfl⟩
  | clearContext acquired => cases Option.some.inj hs; exact ⟨rfl, .inl rfl⟩
  | start i =>
    obtain ⟨job, -, hs⟩ := Option.bind_eq_some_iff.mp hs
    split at hs
    next =>
      split at hs
      next => cases Option.some.inj hs; exact ⟨rfl, .inl rfl⟩
      next => cases Option.some.inj hs; exact ⟨rfl, .inl rfl⟩
    next => cases hs
  | buildPrompt i =>
    obtain ⟨job, -, hs⟩ := Option.bind_eq_some_iff.mp hs
    split at hs
    next =>
      obtain ⟨native, hnative, rfl⟩ := Option.map_eq_some_iff.mp hs
      obtain ⟨state, hstate, rfl⟩ := buildPrompt_cases hnative
      exact ⟨rfl, .inr ⟨i, state, job.prompt, rfl, hstate, rfl⟩⟩
    next => cases hs
  | finish i =>
    obtain ⟨job, -, hs⟩ := Option.bind_eq_some_iff.mp hs
    split at hs
    next => cases hs
    next =>
      cases Option.some.inj hs
      exact ⟨by simp, .inl (by simp)⟩

theorem systemPrompt_of_run {es : List Event} (hr : run step new es = some s) :
    s.native.systemPrompt = [] := by
  refine run_preserves (I := fun s => s.native.systemPrompt = []) ?_ rfl hr
  intro s e t h hs
  rw [(step_built hs).1, h]

/-- The invariant behind `LeadsWith`. -/
structure Unprompted (prompt : Bytes) (n : Nat) (s : LlamaBridge) : Prop where
  none : s.native.systemPrompt = []
  enough : n ≤ s.native.built.length
  leads : LeadsWith prompt n s

theorem step_leads {prompt : Bytes} {n : Nat} {e : Event} (h : Unprompted prompt n s)
    (hok : historyLeads prompt s e = true) (hs : s.step e = some t) : Unprompted prompt n t := by
  obtain ⟨hprompt, hbuilt⟩ := step_built hs
  have hnone : t.native.systemPrompt = [] := by rw [hprompt, h.none]
  rcases hbuilt with hsame | ⟨i, state, text, rfl, hstate, hmore⟩
  · refine ⟨hnone, by rw [hsame]; exact h.enough, ?_⟩
    unfold LeadsWith
    rw [hsame]
    exact h.leads
  · have hhead : state.history.head? = some (ascii "system", prompt) := by
      simpa [historyLeads, hstate] using hok
    refine ⟨hnone, by rw [hmore, List.length_append]; exact Nat.le_add_right_of_le h.enough, ?_⟩
    intro messages hmessages
    rw [hmore, List.drop_append_of_le_length h.enough] at hmessages
    rcases List.mem_append.mp hmessages with hold | hnew
    · exact h.leads messages hold
    · cases List.mem_singleton.mp hnew
      have hlead : (buildMessages s.native.systemPrompt state.history text).head? =
          some (ascii "system", prompt) := by
        rw [h.none]
        exact head_buildMessages.mpr hhead
      exact ⟨hlead, chatMl_of_head hlead⟩

theorem not_leads_of_build {prompt : Bytes} {n : Nat} {e : Event} (h : Unprompted prompt n s)
    (hok : historyLeads prompt s e ≠ true) (hs : s.step e = some t) : ¬ LeadsWith prompt n t := by
  intro hleads
  obtain ⟨-, hsame | ⟨i, state, text, rfl, hstate, hmore⟩⟩ := step_built hs
  · cases e with
    | buildPrompt i =>
      obtain ⟨job, -, hs⟩ := Option.bind_eq_some_iff.mp hs
      split at hs
      next =>
        obtain ⟨native, hnative, rfl⟩ := Option.map_eq_some_iff.mp hs
        obtain ⟨state, -, rfl⟩ := buildPrompt_cases hnative
        have hlen := congrArg List.length hsame
        simp [setPoint] at hlen
      next => cases hs
    | _ => exact absurd rfl hok
  · refine hok ?_
    have hlast : buildMessages s.native.systemPrompt state.history text ∈ t.native.built.drop n := by
      rw [hmore, List.drop_append_of_le_length h.enough]
      exact List.mem_append_right _ (List.mem_singleton.mpr rfl)
    obtain ⟨hhead, -⟩ := hleads _ hlast
    rw [h.none] at hhead
    simpa [historyLeads, hstate] using head_buildMessages.mp hhead

/-- After `setSystemPrompt`, whatever follows, every prompt is built with its text as the leading
system message exactly when the caller itself has put that message first in the history. -/
theorem system_prompt_leads_iff {before after : List Event} {prompt : Bytes} {s t : LlamaBridge}
    (hs : run step new before = some s) (hr : run step (s.setSystemPrompt prompt) after = some t) :
    Always step (LeadsWith prompt s.native.built.length) (s.setSystemPrompt prompt) after ↔
      Meets step (fun s e => historyLeads prompt s e = true) (s.setSystemPrompt prompt) after := by
  have hnone : s.native.systemPrompt = [] := systemPrompt_of_run hs
  refine always_iff_meets (I := Unprompted prompt s.native.built.length) (fun s h => h.leads) ?_ ?_ ?_ hr
  · intro s e t h hok hs
    exact step_leads h hok hs
  · intro s e t h hok hs
    exact not_leads_of_build h hok hs
  · refine ⟨hnone, Nat.le_refl _, ?_⟩
    intro messages hmessages
    simp [setSystemPrompt, NativeLlama.setSystemPrompt] at hmessages

/-- A bridge with a model, before its system prompt is set. -/
def loadedBridge : List Event := [.init none, .loadModel "model.gguf".toList .loaded]

/-- The caller adds the system prompt to the history itself. -/
def promptInHistory : List Event :=
  [.addToHistory (ascii "system") (ascii "Be brief."), .generate (ascii "hi"), .start 0,
    .buildPrompt 0, .finish 0]

theorem system_prompt_leads_promptInHistory : ∃ s, run step new loadedBridge = some s ∧
    Always step (LeadsWith (ascii "Be brief.") s.native.built.length)
      (s.setSystemPrompt (ascii "Be brief.")) promptInHistory := by
  obtain ⟨s, t, hs, hr, hok⟩ : ∃ s t, run step new loadedBridge = some s ∧
      run step (s.setSystemPrompt (ascii "Be brief.")) promptInHistory = some t ∧
      Meets step (fun s e => historyLeads (ascii "Be brief.") s e = true)
        (s.setSystemPrompt (ascii "Be brief.")) promptInHistory := ⟨_, _, rfl, rfl, by decide +kernel⟩
  exact ⟨s, hs, (system_prompt_leads_iff hs hr).mpr hok⟩

/-- A first question: its message list is the question alone. -/
def firstQuestion : List Event := [.generate (ascii "hi"), .start 0, .buildPrompt 0]

theorem system_prompt_dropped : ∃ s, run step new loadedBridge = some s ∧
    ¬ Always step (LeadsWith (ascii "Be brief.") s.native.built.length)
      (s.setSystemPrompt (ascii "Be brief.")) firstQuestion := by
  refine ⟨_, rfl, fun h => ?_⟩
  have hleads := always_run h (t := _) rfl
  obtain ⟨hhead, -⟩ := hleads [(ascii "user", ascii "hi")] (by decide +kernel)
  exact absurd hhead (by decide +kernel)

end HeyNilo.LlamaBridge
